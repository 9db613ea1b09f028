import VirtualClock.LogFilter.Directive

/-!
Regular expressions in log filters, and matching a whole text by derivatives. Case is told apart,
and the classes that need the tables of Unicode, such as `\d`, are not offered. Braces and commas
mean something else in a filter, so an expression has no counted repetition. This is the engine of
the program that runs; what is proved of filters and configurations holds for every engine.
-/

namespace VirtualClock.LogFilter

/-- A set of characters. -/
inductive CharSet where
  | range (lo hi : Char)
  | union (a b : CharSet)
  | inter (a b : CharSet)
  | diff (a b : CharSet)
  | complement (a : CharSet)
deriving DecidableEq

namespace CharSet

/-- Whether a character is in a set. -/
def mem (x : Char) : CharSet → Bool
  | range lo hi => lo ≤ x && x ≤ hi
  | union a b => a.mem x || b.mem x
  | inter a b => a.mem x && b.mem x
  | diff a b => a.mem x && !b.mem x
  | complement a => !a.mem x

/-- The set of one character. -/
def single (x : Char) : CharSet := range x x

/-- The set without characters. -/
def empty : CharSet := range '1' '0'

/-- What is in one of two sets only. -/
def symmetricDiff (a b : CharSet) : CharSet := union (diff a b) (diff b a)

/-- The classes of ASCII by name. -/
def ascii? : String → Option CharSet
  | "alnum" => some (union (range '0' '9') (union (range 'A' 'Z') (range 'a' 'z')))
  | "alpha" => some (union (range 'A' 'Z') (range 'a' 'z'))
  | "ascii" => some (range (Char.ofNat 0) (Char.ofNat 0x7F))
  | "blank" => some (union (single '\t') (single ' '))
  | "cntrl" => some (union (range (Char.ofNat 0) (Char.ofNat 0x1F)) (single (Char.ofNat 0x7F)))
  | "digit" => some (range '0' '9')
  | "graph" => some (range '!' '~')
  | "lower" => some (range 'a' 'z')
  | "print" => some (range ' ' '~')
  | "punct" =>
    some (union (union (range '!' '/') (range ':' '@')) (union (range '[' '`') (range '\x7b' '~')))
  | "space" => some (union (range '\t' '\r') (single ' '))
  | "upper" => some (range 'A' 'Z')
  | "word" =>
    some (union (union (range '0' '9') (range 'A' 'Z')) (union (single '_') (range 'a' 'z')))
  | "xdigit" => some (union (range '0' '9') (union (range 'A' 'F') (range 'a' 'f')))
  | _ => none

end CharSet

/-- A regular expression. -/
inductive Pattern where
  | nothing
  | empty
  | one (set : CharSet)
  /-- The start of the text. -/
  | start
  /-- The end of the text. -/
  | finish
  | append (p q : Pattern)
  | either (p q : Pattern)
  | star (p : Pattern)
deriving DecidableEq

namespace Pattern

/-- Whether `p` matches no characters at a place that is the start or the end of the text. -/
def nullable (atStart atEnd : Bool) : Pattern → Bool
  | nothing | one _ => false
  | empty | star _ => true
  | start => atStart
  | finish => atEnd
  | append p q => p.nullable atStart atEnd && q.nullable atStart atEnd
  | either p q => p.nullable atStart atEnd || q.nullable atStart atEnd

/-- What is left to match behind the character `x`. -/
def derive (atStart : Bool) (x : Char) : Pattern → Pattern
  | nothing | empty | start | finish => nothing
  | one set => if set.mem x then empty else nothing
  | append p q =>
    let first := append (p.derive atStart x) q
    if p.nullable atStart false then either first (q.derive atStart x) else first
  | either p q => either (p.derive atStart x) (q.derive atStart x)
  | star p => append (p.derive atStart x) (star p)

/-- Whether `p` matches the rest of a text. -/
def matchesRest (atStart : Bool) (p : Pattern) : List Char → Bool
  | [] => p.nullable atStart true
  | x :: rest => (p.derive atStart x).matchesRest false rest

/-- Whether `p` matches the whole of a text. -/
def isMatch (p : Pattern) (s : String) : Bool := p.matchesRest true s.toList

/-- Any character but a line feed. -/
def dot : Pattern := one (.complement (.single '\n'))

/-- The characters that stand for something else and are written behind a backslash. -/
def isMeta (x : Char) : Bool := "\\.+*?()|[]\x7b\x7d^$#&-~".contains x

/-- The character that is written behind a backslash, and what follows. -/
def escaped? : List Char → Option (Char × List Char)
  | [] => none
  | x :: rest =>
    match x with
    | 'a' => some (Char.ofNat 7, rest)
    | 'f' => some (Char.ofNat 12, rest)
    | 't' => some ('\t', rest)
    | 'n' => some ('\n', rest)
    | 'r' => some ('\r', rest)
    | 'v' => some (Char.ofNat 11, rest)
    | 'x' => Yaml.hexChar? 2 rest
    | 'u' => Yaml.hexChar? 4 rest
    | 'U' => Yaml.hexChar? 8 rest
    | _ =>
      if isMeta x || (x.toNat < 0x80 && !x.isAlphanum && x != '<' && x != '>') then some (x, rest)
      else none

/-- A character of a class, possibly behind a backslash. -/
def classChar? : List Char → Option (Char × List Char)
  | [] => none
  | '\\' :: rest => escaped? rest
  | x :: rest => some (x, rest)

/-- A class of ASCII such as `[:alpha:]`, from behind its first bracket. -/
def asciiClass? : List Char → Option (CharSet × List Char)
  | ':' :: rest =>
    let (negated, rest) := match rest with
      | '^' :: rest => (true, rest)
      | _ => (false, rest)
    let name := rest.takeWhile Char.isAlpha
    match rest.drop name.length with
    | ':' :: ']' :: rest =>
      (CharSet.ascii? (.ofList name)).map fun set =>
        (if negated then .complement set else set, rest)
    | _ => none
  | _ => none

/-- An operator between two parts of a class. -/
def classOperator? : List Char → Option ((CharSet → CharSet → CharSet) × List Char)
  | '&' :: '&' :: rest => some (.inter, rest)
  | '-' :: '-' :: rest => some (.diff, rest)
  | '~' :: '~' :: rest => some (.symmetricDiff, rest)
  | _ => none

/-- The hyphens that a class starts with, and a closing bracket if there are none: they stand for
themselves. -/
def classStart (cs : List Char) : CharSet × List Char :=
  let hyphens := (cs.takeWhile (· == '-')).length
  if 0 < hyphens then (.single '-', cs.drop hyphens)
  else
    match cs with
    | ']' :: rest => (.single ']', rest)
    | _ => (.empty, cs)

/-- The rest of a class: `combine` joins the part that is being read to those before it. -/
def classRest? (combine : CharSet → CharSet) (part : CharSet) :
    (fuel : Nat) → List Char → Option (CharSet × List Char)
  | 0, _ => none
  | fuel + 1, cs =>
    match cs with
    | [] => none
    | ']' :: rest => some (combine part, rest)
    | '[' :: rest =>
      match asciiClass? rest with
      | some (set, rest) => classRest? combine (.union part set) fuel rest
      | none =>
        let (negated, rest) := match rest with
          | '^' :: rest => (true, rest)
          | _ => (false, rest)
        let (first, rest) := classStart rest
        match classRest? id first fuel rest with
        | none => none
        | some (set, rest) =>
          classRest? combine (.union part (if negated then .complement set else set)) fuel rest
    | _ =>
      match classOperator? cs with
      | some (op, rest) => classRest? (op (combine part)) .empty fuel rest
      | none =>
        match classChar? cs with
        | none => none
        | some (lo, rest) =>
          match rest with
          | '-' :: x :: more =>
            if x == ']' || x == '-' then classRest? combine (.union part (.single lo)) fuel rest
            else
              match if x == '[' then none else classChar? (x :: more) with
              | none => none
              | some (hi, rest) =>
                if lo ≤ hi then classRest? combine (.union part (.range lo hi)) fuel rest else none
          | _ => classRest? combine (.union part (.single lo)) fuel rest

/-- A class, from behind its opening bracket. -/
def class? (cs : List Char) : Option (CharSet × List Char) :=
  let (negated, cs) := match cs with
    | '^' :: rest => (true, rest)
    | _ => (false, cs)
  let (first, rest) := classStart cs
  (classRest? id first (cs.length + 1) rest).map fun (set, rest) =>
    (if negated then .complement set else set, rest)

/-- What follows the name of a group, from behind its angle bracket. -/
def groupName? : List Char → Option (List Char)
  | [] => none
  | x :: rest =>
    if x == '_' || Text.isAlphanumeric x && !Text.isDigit x then
      match rest.dropWhile fun y => ['_', '.', '[', ']'].contains y || Text.isAlphanumeric y with
      | '>' :: rest => some rest
      | _ => none
    else none

/-- What follows the head of a group, from behind its bracket. -/
def groupHead? : List Char → Option (List Char)
  | '?' :: ':' :: rest => some rest
  | '?' :: 'P' :: '<' :: rest | '?' :: '<' :: rest => groupName? rest
  | '?' :: _ => none
  | rest => some rest

mutual

/-- Alternatives, up to a closing bracket or the end. -/
def alternatives? : (fuel : Nat) → List Char → Option (Pattern × List Char)
  | 0, _ => none
  | fuel + 1, cs =>
    match sequence? none fuel cs with
    | none => none
    | some (p, '|' :: rest) =>
      (alternatives? fuel rest).map fun (q, rest) => (either p q, rest)
    | some (p, rest) => some (p, rest)

/-- A sequence of repeated items; `last` is the item before, which may be repeated. -/
def sequence? (last : Option Pattern) : (fuel : Nat) → List Char → Option (Pattern × List Char)
  | 0, _ => none
  | fuel + 1, cs =>
    let before := last.getD empty
    let continue_ (p : Pattern) (rest : List Char) : Option (Pattern × List Char) :=
      (sequence? (some p) fuel rest).map fun (q, rest) => (append before q, rest)
    match cs with
    | [] => some (before, [])
    | x :: rest =>
      match x with
      | '|' | ')' => some (before, cs)
      | '*' | '+' | '?' =>
        match last with
        | none => none
        | some p =>
          let rest := match rest with
            | '?' :: rest => rest
            | _ => rest
          let repeated :=
            if x == '*' then star p else if x == '+' then append p (star p) else either p empty
          sequence? (some repeated) fuel rest
      | '\x7b' => none
      | '(' =>
        match groupHead? rest with
        | none => none
        | some rest =>
          match alternatives? fuel rest with
          | some (p, ')' :: rest) => continue_ p rest
          | _ => none
      | '[' =>
        match class? rest with
        | some (set, rest) => continue_ (one set) rest
        | none => none
      | '.' => continue_ dot rest
      | '^' => continue_ start rest
      | '$' => continue_ finish rest
      | '\\' =>
        match rest with
        | 'A' :: rest => continue_ start rest
        | 'z' :: rest => continue_ finish rest
        | _ =>
          match escaped? rest with
          | some (y, rest) => continue_ (one (.single y)) rest
          | none => none
      | _ => continue_ (one (.single x)) rest

end

/-- The regular expression that `cs` denotes. -/
def ofChars? (cs : List Char) : Option Pattern :=
  match alternatives? (2 * cs.length + 2) cs with
  | some (p, []) => some p
  | _ => none

end Pattern

/-- The engine of these regular expressions. -/
instance : PatternEngine := ⟨fun cs => (Pattern.ofChars? cs).map (·.isMatch)⟩

end VirtualClock.LogFilter

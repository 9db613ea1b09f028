import VirtualClock.Json.Parser
import VirtualClock.Yaml.Cursor

/-!
Reading scalars: plain ones, quoted ones, and blocks of lines. A line break in a plain or a quoted
scalar is folded: it stands for a space, and each further break right behind it for a line feed.
-/

namespace VirtualClock.Yaml

/-- How a scalar is written. -/
inductive Style where
  | plain
  | singleQuoted
  | doubleQuoted
  | literal
  | folded
deriving DecidableEq

/-- Blanks and breaks between two pieces of a scalar. -/
structure Gap where
  /-- The blanks, as long as there is no break. -/
  blanks : List Char := []
  breaks : List Char := []
  /-- A break stood before all others that was escaped and does not count. -/
  escaped : Bool := false

namespace Gap

/-- Whether a line ended in the gap. -/
def folds (g : Gap) : Bool := g.escaped || !g.breaks.isEmpty

/-- What a gap stands for. -/
def text (g : Gap) : List Char :=
  if g.escaped then g.breaks
  else
    match g.breaks with
    | [] => g.blanks
    | ['\n'] => [' ']
    | '\n' :: rest => rest
    | breaks => breaks

end Gap

namespace Cursor

/-- Reads on in a gap. At the start of a line, no tab may stand left of the column `margin`. -/
def gapFrom (margin : Nat) : (fuel : Nat) → Gap → Cursor → Option (Gap × Cursor)
  | 0, g, c => some (g, c)
  | fuel + 1, g, c =>
    match c.peek with
    | none => some (g, c)
    | some x =>
      if isBlank x then
        if !g.folds then gapFrom margin fuel { g with blanks := g.blanks ++ [x] } c.advance
        else if x == '\t' && c.column < margin then none
        else gapFrom margin fuel g c.advance
      else if isBreak x then gapFrom margin fuel { g with breaks := g.breaks ++ [x] } c.advance
      else some (g, c)

/-- Reads a gap. -/
def gap? (margin : Nat) (escaped : Bool) (c : Cursor) : Option (Gap × Cursor) :=
  c.gapFrom margin c.rest.length { escaped }

end Cursor

/-- The characters that separate and enclose in flow collections. -/
def isFlowIndicator (c : Char) : Bool :=
  c == ',' || c == '[' || c == ']' || c == '\x7b' || c == '\x7d'

/-- A word of a plain scalar: it ends before a colon that ends a word, and in a flow collection
before an indicator of those. -/
def plainWord? (flow : Bool) : List Char → Option (List Char)
  | [] => some []
  | x :: rest =>
    if endsWord (some x) then some []
    else if flow && x == ':' && rest.head?.any (fun y => isFlowIndicator y || y == '?') then none
    else if (x == ':' && endsWord rest.head?) || (flow && isFlowIndicator x) then some []
    else (plainWord? flow rest).map (x :: ·)

/-- A plain scalar from its next word on, which follows the gap `g`: its text, whether a line ended
behind it, and the place behind the gap that follows. Outside of flow collections it ends before a
line that starts left of the column `margin`. -/
def plainFrom (flow : Bool) (margin : Nat) :
    (fuel : Nat) → Gap → Cursor → Option (List Char × Bool × Cursor)
  | 0, _, _ => none
  | fuel + 1, g, c =>
    if c.isDocumentMarker || c.isAt '#' then some ([], g.folds, c)
    else
      match plainWord? flow c.rest with
      | none => none
      | some [] => some ([], g.folds, c)
      | some word =>
        match (c.skip word.length).gap? margin false with
        | none => none
        | some (next, c) =>
          let text := g.text ++ word
          if next.blanks.isEmpty && !next.folds then some (text, false, c)
          else if !flow && c.column < margin then some (text, next.folds, c)
          else (plainFrom flow margin fuel next c).map fun (more, folds, c) =>
            (text ++ more, folds, c)

/-- A plain scalar. -/
def plain? (flow : Bool) (margin : Nat) (c : Cursor) : Option (List Char × Bool × Cursor) :=
  plainFrom flow margin (c.rest.length + 1) {} c

/-- The number of `n` hexadecimal digits. -/
def hexNumber? : (n : Nat) → (value : Nat) → List Char → Option (Nat × List Char)
  | 0, value, rest => some (value, rest)
  | _ + 1, _, [] => none
  | n + 1, value, x :: rest =>
    match Json.hexValue? x with
    | none => none
    | some d => hexNumber? n (value * 16 + d) rest

/-- The character of a number of `n` hexadecimal digits. -/
def hexChar? (n : Nat) (cs : List Char) : Option (Char × List Char) := do
  let (value, rest) ← hexNumber? n 0 cs
  if value.isValidChar then some (Char.ofNat value, rest) else none

/-- The character that stands behind a backslash in double quotes. -/
def escape? : List Char → Option (Char × List Char)
  | [] => none
  | x :: rest =>
    let char (n : Nat) : Option (Char × List Char) := some (Char.ofNat n, rest)
    match x with
    | '0' => char 0
    | 'a' => char 7
    | 'b' => char 8
    | 't' | '\t' => char 9
    | 'n' => char 10
    | 'v' => char 11
    | 'f' => char 12
    | 'r' => char 13
    | 'e' => char 27
    | ' ' | '"' | '/' | '\\' => some (x, rest)
    | 'N' => char 0x85
    | '_' => char 0xA0
    | 'L' => char 0x2028
    | 'P' => char 0x2029
    | 'x' => hexChar? 2 rest
    | 'u' => hexChar? 4 rest
    | 'U' => hexChar? 8 rest
    | _ => none

/-- The characters of a quoted scalar up to a gap or the closing quote: what they stand for, what
follows, and whether an escaped break ended them. A single quote is written twice between single
quotes. -/
def quotedWord? (single : Bool) : (fuel : Nat) → List Char → Option (List Char × List Char × Bool)
  | 0, _ => none
  | fuel + 1, cs =>
    match cs with
    | [] => some ([], [], false)
    | x :: rest =>
      if endsWord (some x) then some ([], cs, false)
      else if single && x == '\'' then
        match rest with
        | '\'' :: rest => (quotedWord? single fuel rest).map fun (w, r, e) => ('\'' :: w, r, e)
        | _ => some ([], cs, false)
      else if !single && x == '"' then some ([], cs, false)
      else if !single && x == '\\' then
        if rest.head?.any isBreak then some ([], rest.drop 1, true)
        else
          match escape? rest with
          | none => none
          | some (y, rest) => (quotedWord? single fuel rest).map fun (w, r, e) => (y :: w, r, e)
      else (quotedWord? single fuel rest).map fun (w, r, e) => (x :: w, r, e)

/-- A quoted scalar from its next word on. -/
def quotedFrom (single : Bool) : (fuel : Nat) → Cursor → Option (List Char × Cursor)
  | 0, _ => none
  | fuel + 1, c =>
    if c.isDocumentMarker || c.rest.isEmpty then none
    else
      match quotedWord? single (c.rest.length + 1) c.rest with
      | none => none
      | some (word, rest, escaped) =>
        let c := c.skip (c.rest.length - rest.length)
        if c.isAt (if single then '\'' else '"') then some (word, c.advance)
        else
          match c.gap? 0 escaped with
          | none => none
          | some (g, c) =>
            (quotedFrom single fuel c).map fun (more, c) => (word ++ g.text ++ more, c)

/-- A quoted scalar, from its opening quote on. -/
def quoted? (single : Bool) (c : Cursor) : Option (List Char × Cursor) :=
  quotedFrom single (c.rest.length + 1) c.advance

/-- What becomes of the line breaks at the end of a block. -/
inductive Chomping where
  | strip
  | clip
  | keep
deriving DecidableEq

/-- The sign of a chomping. -/
def Chomping.ofSign? : Option Char → Option Chomping
  | some '+' => some keep
  | some '-' => some strip
  | _ => none

/-- The indentation that a digit asks for; it is not zero. -/
def increment? (c : Cursor) : Option (Nat × Cursor) :=
  match c.peek with
  | some x =>
    if x == '0' then none
    else if x.isDigit then some (x.toNat - '0'.toNat, c.advance)
    else some (0, c)
  | none => some (0, c)

/-- The head of a block behind its indicator: a sign and a digit in either order, and nothing else
on the line. -/
def blockHead? (c : Cursor) : Option (Chomping × Nat × Cursor) := do
  let (chomping, increment, c) ←
    match Chomping.ofSign? c.peek with
    | some chomping => do
      let (n, c) ← increment? c.advance
      some (chomping, n, c)
    | none => do
      let (n, c) ← increment? c
      match if n == 0 then none else Chomping.ofSign? c.peek with
      | some chomping => some (chomping, n, c.advance)
      | none => some (.clip, n, c)
  let c := c.skipWhile isBlank
  let c := if c.isAt '#' then c.lineEnd else c
  match c.peek with
  | none => some (chomping, increment, c)
  | some x => if isBreak x then some (chomping, increment, c.advance) else none

/-- Reads the indentation of lines and the breaks of those that are empty, up to the column
`indent`, or to any column if that is zero. The result has the breaks and the widest indentation. -/
def blockBreaks (indent : Nat) :
    (fuel : Nat) → (widest : Nat) → Cursor → Option (List Char × Nat × Cursor)
  | 0, _, _ => none
  | fuel + 1, widest, c =>
    let spaces := (c.rest.takeWhile (· == ' ')).length
    let c := c.skip (if indent == 0 then spaces else min spaces (indent - c.column))
    let widest := max widest c.column
    if (indent == 0 || c.column < indent) && c.isAt '\t' then none
    else
      match c.peek with
      | some x =>
        if isBreak x then
          (blockBreaks indent fuel widest c.advance).map fun (breaks, widest, c) =>
            (x :: breaks, widest, c)
        else some ([], widest, c)
      | none => some ([], widest, c)

/-- The lines of a block that are indented to the column `indent`: the text without its last
breaks, the break of the last line, and the breaks of the empty lines that follow. In a folded block
a single break between two lines that do not start with a blank stands for a space. -/
def blockLines (literal : Bool) (indent : Nat) : (fuel : Nat) → (leading trailing : List Char) →
    (afterBlank : Bool) → Cursor → Option (List Char × List Char × List Char × Cursor)
  | 0, _, _, _, _ => none
  | fuel + 1, leading, trailing, afterBlank, c =>
    if c.column != indent || c.rest.isEmpty then some ([], leading, trailing, c)
    else
      let startsBlank := c.peek.any isBlank
      let folds := !literal && leading == ['\n'] && !afterBlank && !startsBlank
      let join := if !folds then leading else if trailing.isEmpty then [' '] else []
      let (line, c) := c.spanWhile (!isBreak ·)
      let leading' := c.rest.take 1
      match blockBreaks indent (c.rest.length + 1) 0 c.advance with
      | none => none
      | some (trailing', _, c) =>
        (blockLines literal indent fuel leading' trailing' startsBlank c).map
          fun (more, leading', trailing', c) =>
            (join ++ trailing ++ line ++ more, leading', trailing', c)

/-- A block, from its indicator on, inside a collection indented to the column `parent`. -/
def block? (literal : Bool) (parent : Int) (c : Cursor) : Option (List Char × Cursor) := do
  let (chomping, increment, c) ← blockHead? c.advance
  let asked := if increment == 0 then 0 else (max parent 0).toNat + increment
  let (trailing, widest, c) ← blockBreaks asked (c.rest.length + 1) 0 c
  let indent := if asked == 0 then max widest (max (parent + 1).toNat 1) else asked
  let (text, leading, trailing, c) ←
    blockLines literal indent (c.rest.length + 1) [] trailing false c
  some (text ++ (if chomping == .strip then [] else leading) ++
    (if chomping == .keep then trailing else []), c)

end VirtualClock.Yaml

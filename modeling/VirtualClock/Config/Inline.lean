import VirtualClock.Config.Value
import VirtualClock.Text.Blank
import VirtualClock.Word64
import VirtualClock.Yaml.Plain

/-!
Values of settings on one line, as environment variables hold them: arrays in brackets, tables in
braces, strings in double quotes and characters in single ones. Anything else is a truth value, a
number or a string without quotes, and so is a text that none of those forms fits as a whole.
-/

namespace VirtualClock.Config.Value.Inline

/-- The blanks of ASCII between values. -/
def isBlank (c : Char) : Bool :=
  c == ' ' || c == '\t' || c == '\n' || c == '\r' || c.toNat == 12

/-- A text without the blanks it starts with. -/
def skipBlanks (cs : List Char) : List Char := cs.dropWhile isBlank

/-- The characters that end a value without quotes. -/
def isSeparator (c : Char) : Bool :=
  c == ',' || c == '\x7b' || c == '\x7d' || c == '[' || c == ']'

/-- The characters of a name without quotes. -/
def isNameChar (c : Char) : Bool := c.isAlphanum || c == '_' || c == '-'

/-- The character behind a backslash, and what follows. -/
def escaped? : List Char → Option (Char × List Char)
  | [] => none
  | x :: rest =>
    match x with
    | '"' | '\\' => some (x, rest)
    | 'b' => some (Char.ofNat 8, rest)
    | 'f' => some (Char.ofNat 12, rest)
    | 'n' => some ('\n', rest)
    | 'r' => some ('\r', rest)
    | 't' => some ('\t', rest)
    | 'u' => Yaml.hexChar? 4 rest
    | 'U' => Yaml.hexChar? 8 rest
    | _ => none

/-- The characters of a string up to its closing quote. -/
def stringBody : (fuel : Nat) → List Char → Option (List Char × List Char)
  | 0, _ => none
  | fuel + 1, cs =>
    match cs with
    | [] => none
    | '"' :: rest => some ([], rest)
    | '\\' :: rest =>
      match escaped? rest with
      | none => none
      | some (x, rest) => (stringBody fuel rest).map fun (s, rest) => (x :: s, rest)
    | x :: rest =>
      if (x.toNat < 32 && x != '\t') || x.toNat == 127 then none
      else (stringBody fuel rest).map fun (s, rest) => (x :: s, rest)

/-- A string, from behind its opening quote. -/
def string? (cs : List Char) : Option (String × List Char) :=
  (stringBody (cs.length + 1) cs).map fun (s, rest) => (.ofList s, rest)

/-- A name, with or without quotes. -/
def name? (cs : List Char) : Option (String × List Char) :=
  match cs with
  | '"' :: rest => string? rest
  | _ =>
    let name := cs.takeWhile isNameChar
    if name.isEmpty then none else some (.ofList name, cs.drop name.length)

/-- What a text without quotes denotes. -/
def bare (cs : List Char) : Value :=
  if cs.contains '.' && (Yaml.decimal? cs).isSome then float
  else if cs == "true".toList then bool true
  else if cs == "false".toList then bool false
  else
    match Text.readInt? cs with
    | some n => if Word64.isSigned n || Word64.isUnsigned n then int n else str (.ofList cs)
    | none => str (.ofList cs)

mutual

/-- A value with the blanks around it. -/
def value? : (fuel : Nat) → List Char → Option (Value × List Char)
  | 0, _ => none
  | fuel + 1, cs =>
    let found : Option (Value × List Char) :=
      match skipBlanks cs with
      | '"' :: rest => (string? rest).map fun (s, rest) => (str s, rest)
      | '\x7b' :: rest => (entries? [] fuel rest).map fun (t, rest) => (table t, rest)
      | '[' :: rest => (items? fuel rest).map fun (vs, rest) => (array vs, rest)
      | '\'' :: x :: '\'' :: rest => some (str (.ofList [x]), rest)
      | '\'' :: _ => none
      | rest =>
        let text := rest.takeWhile (!isSeparator ·)
        some (bare (Text.trim text), rest.drop text.length)
    found.map fun (v, rest) => (v, skipBlanks rest)

/-- Items with commas between them or behind each, and the closing bracket. -/
def items? : (fuel : Nat) → List Char → Option (List Value × List Char)
  | 0, _ => none
  | fuel + 1, cs =>
    match cs with
    | ']' :: rest => some ([], rest)
    | _ =>
      match value? fuel cs with
      | some (v, ']' :: rest) => some ([v], rest)
      | some (v, ',' :: rest) => (items? fuel rest).map fun (vs, rest) => (v :: vs, rest)
      | _ => none

/-- Entries with commas between them or behind each, and the closing brace. -/
def entries? (before : List (String × Value)) :
    (fuel : Nat) → List Char → Option (List (String × Value) × List Char)
  | 0, _ => none
  | fuel + 1, cs =>
    match cs with
    | '\x7d' :: rest => some (before, rest)
    | _ =>
      match name? (skipBlanks cs) with
      | none => none
      | some (name, rest) =>
        match skipBlanks rest with
        | '=' :: rest =>
          match value? fuel rest with
          | some (v, '\x7d' :: rest) => some (put name v before, rest)
          | some (v, ',' :: rest) => entries? (put name v before) fuel rest
          | _ => none
        | _ => none

end

/-- The value that a text denotes. -/
def ofString (s : String) : Value :=
  match value? (2 * s.length + 2) s.toList with
  | some (v, []) => v
  | _ => str s

end VirtualClock.Config.Value.Inline

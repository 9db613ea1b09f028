import VirtualClock.Text.Digits

/-!
JSON values and how they are written. Integers of 64 bits, signed or not, are kept apart from all
other numbers, which are kept as they are spelled.
-/

namespace VirtualClock

/-- A JSON value. The members of an object are in the order of the text. -/
inductive Json where
  | null
  | bool (b : Bool)
  | int (n : Int)
  /-- A number with a point or an exponent, or of more than 64 bits. -/
  | real (spelling : String)
  | str (s : String)
  | arr (elements : List Json)
  | obj (members : List (String × Json))

namespace Json

instance : Inhabited Json := ⟨null⟩

/-- The member of a name; the last one if there are several. -/
def member? (name : String) : List (String × Json) → Option Json
  | [] => none
  | (k, v) :: rest => (member? name rest).or (if k == name then some v else none)

/-- The member of a name, if the value is an object that has it. -/
def get? (name : String) : Json → Option Json
  | obj members => member? name members
  | _ => none

/-- The digits of `n` below 16, in lower case. -/
def hexDigit (n : Nat) : Char := Nat.digitChar n

/-- One character of a string: quotes, backslashes and control characters are escaped. -/
def escape (c : Char) : List Char :=
  if c = '"' then ['\\', '"']
  else if c = '\\' then ['\\', '\\']
  else if c = '\n' then ['\\', 'n']
  else if c = '\r' then ['\\', 'r']
  else if c = '\t' then ['\\', 't']
  else if c.toNat = 8 then ['\\', 'b']
  else if c.toNat = 12 then ['\\', 'f']
  else if c.toNat < 32 then
    ['\\', 'u', '0', '0', hexDigit (c.toNat / 16), hexDigit (c.toNat % 16)]
  else [c]

/-- A string between quotes. -/
def quoted (s : String) : List Char := '"' :: s.toList.flatMap escape ++ ['"']

mutual

/-- A value without blanks. -/
def chars : Json → List Char
  | null => ['n', 'u', 'l', 'l']
  | bool true => ['t', 'r', 'u', 'e']
  | bool false => ['f', 'a', 'l', 's', 'e']
  | int n => Text.signed n
  | real spelling => spelling.toList
  | str s => quoted s
  | arr elements => '[' :: charsElements elements ++ [']']
  | obj members => '\x7b' :: charsMembers members ++ ['\x7d']

/-- Elements with commas between them. -/
def charsElements : List Json → List Char
  | [] => []
  | [v] => v.chars
  | v :: rest => v.chars ++ ',' :: charsElements rest

/-- Members with commas between them. -/
def charsMembers : List (String × Json) → List Char
  | [] => []
  | [(k, v)] => quoted k ++ ':' :: v.chars
  | (k, v) :: rest => quoted k ++ ':' :: v.chars ++ ',' :: charsMembers rest

end

/-- A value on one line. -/
def render (v : Json) : String := .ofList v.chars

end Json

end VirtualClock

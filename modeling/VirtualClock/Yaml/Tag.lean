import VirtualClock.Yaml.Cursor
import VirtualClock.Yaml.Scalar

/-!
Tags and their handles. A tag is written in full between angle brackets, or as a handle and the
rest; a directive says what a handle stands for.
-/

namespace VirtualClock.Yaml

/-- A tag as it is written: a handle, empty if the tag is written in full, and the rest. -/
structure TagName where
  handle : List Char
  suffix : List Char
deriving DecidableEq

/-- The characters of a tag besides those of words. -/
def isTagMark (c : Char) : Bool :=
  [';', '/', '?', ':', '@', '&', '=', '+', '$', '.', '%', '!', '~', '*', '\'', '(', ')'].contains c

/-- The number of octets of a character whose first octet is `n`. -/
def octetCount? (n : Nat) : Option Nat :=
  if n < 0x80 then some 1
  else if 0xC0 ≤ n && n < 0xE0 then some 2
  else if 0xE0 ≤ n && n < 0xF0 then some 3
  else if 0xF0 ≤ n && n < 0xF8 then some 4
  else none

/-- An octet as a percent sign and two digits. -/
def percentOctet? : List Char → Option (Nat × List Char)
  | '%' :: rest => hexNumber? 2 0 rest
  | _ => none

/-- The octets that continue a character, `n` of them. -/
def continueOctets? : (n : Nat) → List Char → Option (List Nat × List Char)
  | 0, rest => some ([], rest)
  | n + 1, cs => do
    let (octet, rest) ← percentOctet? cs
    if octet / 0x40 != 2 then none
    else
      let (octets, rest) ← continueOctets? n rest
      some (octet :: octets, rest)

/-- The character that octets in percent signs stand for. -/
def percentChar? (cs : List Char) : Option (Char × List Char) := do
  let (first, rest) ← percentOctet? cs
  let count ← octetCount? first
  let (octets, rest) ← continueOctets? (count - 1) rest
  let bytes : ByteArray := ⟨((first :: octets).map UInt8.ofNat).toArray⟩
  match (← String.fromUTF8? bytes).toList with
  | [c] => some (c, rest)
  | _ => none

/-- The characters of a tag; commas and brackets belong to those that are written in full. -/
def tagChars? (full : Bool) : (fuel : Nat) → List Char → Option (List Char × List Char)
  | 0, _ => none
  | fuel + 1, cs =>
    match cs with
    | [] => some ([], [])
    | x :: rest =>
      if x == '%' then
        match percentChar? cs with
        | none => none
        | some (y, rest) => (tagChars? full fuel rest).map fun (t, r) => (y :: t, r)
      else if isWordChar x || isTagMark x || (full && (x == ',' || x == '[' || x == ']')) then
        (tagChars? full fuel rest).map fun (t, r) => (x :: t, r)
      else some ([], cs)

namespace Cursor

/-- Reads the characters of a tag behind `head`; there must be some. -/
def tagChars? (full : Bool) (head : List Char) (c : Cursor) : Option (List Char × Cursor) := do
  let (cs, rest) ← Yaml.tagChars? full (c.rest.length + 1) c.rest
  if head.isEmpty && cs.isEmpty then none
  else some (head.drop 1 ++ cs, c.skip (c.rest.length - rest.length))

/-- Reads the characters of a handle: an exclamation mark, a word and possibly another mark. -/
def handle? (c : Cursor) : Option (List Char × Cursor) :=
  if !c.isAt '!' then none
  else
    let (word, c) := c.advance.spanWhile isWordChar
    if c.isAt '!' then some ('!' :: word ++ ['!'], c.advance) else some ('!' :: word, c)

/-- Reads a tag. What looks like a handle without its second mark is the tag itself. -/
def tag? (flow : Bool) (c : Cursor) : Option (TagName × Cursor) := do
  let (tag, c) ←
    if c.peekAt 1 == some '<' then do
      let (suffix, c) ← (c.skip 2).tagChars? true []
      if c.isAt '>' then some ((⟨[], suffix⟩ : TagName), c.advance) else none
    else do
      let (handle, c) ← c.handle?
      if 2 ≤ handle.length && handle.getLast? == some '!' then do
        let (suffix, c) ← c.tagChars? false []
        some (⟨handle, suffix⟩, c)
      else do
        let (suffix, c) ← c.tagChars? false handle
        some (if suffix.isEmpty then ⟨[], ['!']⟩ else ⟨['!'], suffix⟩, c)
  if endsWord c.peek || (flow && c.isAt ',') then some (tag, c) else none

end Cursor

end VirtualClock.Yaml

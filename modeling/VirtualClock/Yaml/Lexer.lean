import VirtualClock.Yaml.Token

/-!
Reading tokens. Whether a node is a key shows only at the colon behind it; until then the place of
its first token is kept, and the colon inserts the token of the key there. Such a key lies within
one line and 1024 characters.
-/

namespace VirtualClock.Yaml

/-- The place of a node that may turn out to be a key. -/
structure KeyPlace where
  /-- The number of tokens before the node. -/
  token : Nat
  index : Nat
  line : Nat
  column : Nat
  /-- Nothing else than a key may stand there. -/
  required : Bool

/-- The state of reading tokens. -/
structure Lexer where
  cursor : Cursor
  tokens : Array Token := #[]
  /-- The column of the innermost block collection. -/
  indent : Int := -1
  /-- The columns of the block collections around it. -/
  indents : List Int := []
  /-- The place of the latest node that may be a key, in the innermost flow collection. -/
  place : Option KeyPlace := none
  /-- The same for the flow collections around it. -/
  places : List (Option KeyPlace) := []
  /-- A key may stand at the cursor. -/
  keyAllowed : Bool := true

namespace Lexer

/-- Whether the cursor is within a flow collection. -/
def inFlow (l : Lexer) : Bool := !l.places.isEmpty

/-- Appends a token. -/
def emit (l : Lexer) (t : Token) : Lexer := { l with tokens := l.tokens.push t }

/-- Inserts a token before the token number `n`. -/
def insertAt (l : Lexer) (n : Nat) (t : Token) : Lexer :=
  { l with tokens := (l.tokens.extract 0 n).push t ++ l.tokens.extract n }

/-- Skips `n` characters. -/
def skip (l : Lexer) (n : Nat) : Lexer := { l with cursor := l.cursor.skip n }

/-- Skips blanks, comments and breaks. Tabs do not count as blanks where they could indent. -/
def skipGaps : (fuel : Nat) → Lexer → Lexer
  | 0, l => l
  | fuel + 1, l =>
    let tabs := l.inFlow || !l.keyAllowed
    let c := l.cursor.skipWhile fun x => x == ' ' || (tabs && x == '\t')
    let c := if c.isAt '#' then c.lineEnd else c
    if c.peek.any isBreak then
      skipGaps fuel { l with cursor := c.advance, keyAllowed := l.keyAllowed || !l.inFlow }
    else { l with cursor := c }

/-- A place is given up once the cursor is too far from it. -/
def refresh? (c : Cursor) : Option KeyPlace → Option (Option KeyPlace)
  | none => some none
  | some p =>
    if p.line < c.line || p.index + 1024 < c.index then
      if p.required then none else some none
    else some (some p)

/-- Gives up all places that are too far away. -/
def refreshAll? (l : Lexer) : Option Lexer := do
  let place ← refresh? l.cursor l.place
  let places ← l.places.mapM (refresh? l.cursor)
  some { l with place, places }

/-- Gives up the innermost place. -/
def giveUp? (l : Lexer) : Option Lexer :=
  if l.place.any (·.required) then none else some { l with place := none }

/-- Keeps the cursor as the place of a node that may be a key. -/
def keepPlace? (l : Lexer) : Option Lexer :=
  if l.keyAllowed then do
    let c := l.cursor
    let required := !l.inFlow && l.indent == (c.column : Int)
    let l ← l.giveUp?
    some { l with place := some ⟨l.tokens.size, c.index, c.line, c.column, required⟩ }
  else some l

/-- Opens a block collection at a column, before the token number `n`, if the column is right of
the innermost one. -/
def openBlock (l : Lexer) (column n : Nat) (t : Token) : Lexer :=
  if !l.inFlow && l.indent < (column : Int) then
    { l.insertAt n t with indent := column, indents := l.indent :: l.indents }
  else l

/-- Closes the block collections right of a column; `indents` are those around the innermost. -/
def closeBlocks (column : Int) : (indents : List Int) → Lexer → Lexer
  | [], l => { l with indents := [] }
  | outer :: indents, l =>
    if column < l.indent then closeBlocks column indents ({ l with indent := outer }.emit .blockEnd)
    else { l with indents := outer :: indents }

/-- Closes the block collections right of a column, outside of flow collections. -/
def closeTo (l : Lexer) (column : Int) : Lexer :=
  if l.inFlow then l else closeBlocks column l.indents l

/-- The end of all block collections. -/
def closeAll? (l : Lexer) : Option Lexer := do
  let l ← (l.closeTo (-1)).giveUp?
  some { l with keyAllowed := false }

/-- A number of at most nine digits. -/
def number? (c : Cursor) : Option (Nat × Cursor) :=
  let (ds, c) := c.spanWhile Char.isDigit
  if ds.isEmpty || 9 < ds.length then none else some (Text.ofDecimal ds, c)

/-- What a directive says, from behind its percent sign. -/
def directive? (c : Cursor) : Option (Token × Cursor) := do
  let (name, c) := c.spanWhile isWordChar
  if !endsWord c.peek then none
  else if name == ['Y', 'A', 'M', 'L'] then
    let (major, c) ← number? (c.skipWhile isBlank)
    if !c.isAt '.' then none
    let (minor, c) ← number? c.advance
    some (.version major minor, c)
  else if name == ['T', 'A', 'G'] then
    let (handle, c) ← (c.skipWhile isBlank).handle?
    if handle.getLast? != some '!' || !c.peek.any isBlank then none
    let (text, c) ← (c.skipWhile isBlank).tagChars? true []
    if !endsWord c.peek then none
    some (.tagPrefix handle text, c)
  else none

/-- A directive with its line. -/
def lexDirective? (l : Lexer) : Option Lexer := do
  let l ← l.closeAll?
  let (t, c) ← directive? l.cursor.advance
  let c := c.skipWhile isBlank
  let c := if c.isAt '#' then c.lineEnd else c
  if c.peek.all isBreak then some ({ l with cursor := c.advance }.emit t) else none

/-- The mark of the start or the end of a document. -/
def lexMarker? (l : Lexer) (t : Token) : Option Lexer := do
  let l ← l.closeAll?
  some ((l.skip 3).emit t)

/-- The opening bracket of a flow collection. -/
def lexFlowStart? (l : Lexer) (t : Token) : Option Lexer := do
  let l ← l.keepPlace?
  some ({ l.skip 1 with place := none, places := l.place :: l.places, keyAllowed := true }.emit t)

/-- The closing bracket of a flow collection. -/
def lexFlowEnd? (l : Lexer) (t : Token) : Option Lexer := do
  let l ← l.giveUp?
  let l := match l.places with
    | [] => l
    | place :: places => { l with place, places }
  some ({ l.skip 1 with keyAllowed := false }.emit t)

/-- The comma of a flow collection. -/
def lexFlowEntry? (l : Lexer) : Option Lexer := do
  let l ← l.giveUp?
  some ({ l.skip 1 with keyAllowed := true }.emit .flowEntry)

/-- Opens a block collection at the cursor, where keys must be allowed. -/
def openHere? (l : Lexer) (t : Token) : Option Lexer :=
  if l.inFlow then some l
  else if l.keyAllowed then some (l.openBlock l.cursor.column l.tokens.size t)
  else none

/-- The hyphen of a block sequence. -/
def lexBlockEntry? (l : Lexer) : Option Lexer := do
  let l ← (← l.openHere? .blockSequenceStart).giveUp?
  some ({ l.skip 1 with keyAllowed := true }.emit .blockEntry)

/-- The question mark before a key. -/
def lexKey? (l : Lexer) : Option Lexer := do
  let l ← (← l.openHere? .blockMappingStart).giveUp?
  some ({ l.skip 1 with keyAllowed := !l.inFlow }.emit .key)

/-- The colon before a value. -/
def lexValue? (l : Lexer) : Option Lexer := do
  let l ← match l.place with
    | some p =>
      let l := (l.insertAt p.token .key).openBlock p.column p.token .blockMappingStart
      some { l with place := none, keyAllowed := false }
    | none => do
      let l ← l.openHere? .blockMappingStart
      some { l with keyAllowed := !l.inFlow }
  some ((l.skip 1).emit .value)

/-- The name of an anchor or an alias. -/
def lexAnchor? (l : Lexer) (token : List Char → Token) : Option Lexer := do
  let l ← l.keepPlace?
  let (name, c) := l.cursor.advance.spanWhile isWordChar
  let ended := endsWord c.peek ||
    c.peek.any fun x => ['?', ':', ',', ']', '\x7d', '%', '@', '`'].contains x
  if name.isEmpty || !ended then none
  else some ({ l with cursor := c, keyAllowed := false }.emit (token name))

/-- A tag. -/
def lexTag? (l : Lexer) : Option Lexer := do
  let l ← l.keepPlace?
  let (tag, c) ← l.cursor.tag? l.inFlow
  some ({ l with cursor := c, keyAllowed := false }.emit (.tag tag))

/-- A block of lines. -/
def lexBlock? (l : Lexer) (literal : Bool) : Option Lexer := do
  let l ← l.giveUp?
  let (text, c) ← block? literal l.indent l.cursor
  some ({ l with cursor := c, keyAllowed := true }.emit
    (.scalar (if literal then .literal else .folded) text))

/-- A quoted scalar. -/
def lexQuoted? (l : Lexer) (single : Bool) : Option Lexer := do
  let l ← l.keepPlace?
  let (text, c) ← quoted? single l.cursor
  some ({ l with cursor := c, keyAllowed := false }.emit
    (.scalar (if single then .singleQuoted else .doubleQuoted) text))

/-- A plain scalar. A key may follow if a line ended behind it. -/
def lexPlain? (l : Lexer) : Option Lexer := do
  let l ← l.keepPlace?
  let (text, folds, c) ← plain? l.inFlow (l.indent + 1).toNat l.cursor
  some ({ l with cursor := c, keyAllowed := folds }.emit (.scalar .plain text))

/-- Whether a plain scalar may start with `x` before `next`. -/
def startsPlain (flow : Bool) (x : Char) (next : Option Char) : Bool :=
  if x == '-' then !next.any isBlank
  else if x == '?' || x == ':' then !flow && !endsWord next
  else !endsWord (some x) && !isFlowIndicator x &&
    !(['#', '&', '*', '!', '|', '>', '\'', '"', '%', '@', '`'].contains x)

/-- Reads the token that starts with `x`. -/
def lexToken? (l : Lexer) (x : Char) : Option Lexer :=
  let flow := l.inFlow
  let c := l.cursor
  let alone := endsWord (c.peekAt 1)
  if c.column == 0 && x == '%' then l.lexDirective?
  else if c.isMarker '-' then l.lexMarker? .documentStart
  else if c.isMarker '.' then l.lexMarker? .documentEnd
  else
    match x with
    | '[' => l.lexFlowStart? .flowSequenceStart
    | '\x7b' => l.lexFlowStart? .flowMappingStart
    | ']' => l.lexFlowEnd? .flowSequenceEnd
    | '\x7d' => l.lexFlowEnd? .flowMappingEnd
    | ',' => l.lexFlowEntry?
    | '*' => l.lexAnchor? .reference
    | '&' => l.lexAnchor? .anchor
    | '!' => l.lexTag?
    | '\'' => l.lexQuoted? true
    | '"' => l.lexQuoted? false
    | _ =>
      if x == '-' && alone then l.lexBlockEntry?
      else if x == '?' && (flow || alone) then l.lexKey?
      else if x == ':' && (flow || alone) then l.lexValue?
      else if (x == '|' || x == '>') && !flow then l.lexBlock? (x == '|')
      else if startsPlain flow x (c.peekAt 1) then l.lexPlain?
      else none

/-- Reads all tokens. -/
def lexAll : (fuel : Nat) → Lexer → Option (List Token)
  | 0, _ => none
  | fuel + 1, l => do
    let l ← (l.skipGaps (l.cursor.rest.length + 1)).refreshAll?
    let l := l.closeTo l.cursor.column
    match l.cursor.peek with
    | none => return (← l.closeAll?).tokens.toList
    | some x => lexAll fuel (← l.lexToken? x)

end Lexer

/-- The tokens of a prepared text. -/
def Token.ofChars? (cs : List Char) : Option (List Token) :=
  Lexer.lexAll (cs.length + 1) { cursor := { rest := cs } }

end VirtualClock.Yaml

import VirtualClock.Yaml.Lexer
import VirtualClock.Yaml.Node

/-!
Reading a document from tokens. A text holds exactly one document.
-/

namespace VirtualClock.Yaml

/-- The state of reading a document. -/
structure Reader where
  tokens : List Token
  /-- What the handles of tags stand for. -/
  handles : List (List Char × List Char) := []
  /-- The numbers of anchors by name, latest first. -/
  names : List (List Char × Nat) := []
  /-- The number of anchors so far. -/
  count : Nat := 0
  /-- The nodes with anchors that are complete. -/
  anchored : List (Nat × Node) := []

/-- A computation that reads tokens. -/
abbrev Read := StateT Reader Option

namespace Read

/-- The next token, which is not read. -/
def peek : Read (Option Token) := return (← get).tokens.head?

/-- Passes the next token. -/
def pass : Read Unit := modify fun r => { r with tokens := r.tokens.drop 1 }

/-- Reads the token `t`. -/
def expect (t : Token) : Read Unit := do
  if (← peek) == some t then pass else failure

/-- Reads the token `t` if it is there, and tells whether it is. -/
def accept (t : Token) : Read Bool := do
  if (← peek) == some t then
    pass
    return true
  else return false

/-- Whether the next token is one of `ts`. -/
def isAt (ts : List Token) : Read Bool := return (← peek).any ts.contains

/-- Reads an optional anchor and an optional tag, in either order. -/
def properties : Read (Option (List Char) × Option TagName) := do
  match ← peek with
  | some (.anchor a) =>
    pass
    match ← peek with
    | some (.tag t) =>
      pass
      return (some a, some t)
    | _ => return (some a, none)
  | some (.tag t) =>
    pass
    match ← peek with
    | some (.anchor a) =>
      pass
      return (some a, some t)
    | _ => return (none, some t)
  | _ => return (none, none)

/-- The complete form of a tag. -/
def complete (t : TagName) : Read String := do
  if t.handle.isEmpty then return .ofList t.suffix
  match (← get).handles.find? (·.1 == t.handle) with
  | some (_, text) => return .ofList (text ++ t.suffix)
  | none => failure

/-- Gives a number to an anchor, which hides earlier ones of its name. -/
def nameAnchor (name : List Char) : Read Nat := do
  let r ← get
  set { r with names := (name, r.count) :: r.names, count := r.count + 1 }
  return r.count

/-- The tag of a scalar; a lone exclamation mark is none. -/
def scalarTag (tag : Option String) : Option String := tag.filter (· != "!")

mutual

/-- Reads a node. Outside of flow collections it may be a block, and behind a key also a sequence
that is not indented. -/
def node (block unindented : Bool) : (fuel : Nat) → Read Node
  | 0 => failure
  | fuel + 1 => do
    if let some (.reference name) ← peek then
      pass
      match (← get).names.find? (·.1 == name) with
      | some (_, k) => return .reference k
      | none => failure
    let (anchor, tag) ← properties
    let tag ← tag.mapM complete
    let number ← anchor.mapM nameAnchor
    let n ← content block unindented tag (anchor.isSome || tag.isSome) fuel
    if let some k := number then
      modify fun r => { r with anchored := (k, n) :: r.anchored }
    return n

/-- Reads what follows the anchor and the tag of a node. -/
def content (block unindented : Bool) (tag : Option String) (mayBeEmpty : Bool) :
    (fuel : Nat) → Read Node
  | 0 => failure
  | fuel + 1 => do
    match ← peek with
    | some (.scalar style text) =>
      pass
      return .scalar (scalarTag tag) style (.ofList text)
    | some .flowSequenceStart =>
      pass
      return .sequence tag (← flowItems true fuel)
    | some .flowMappingStart =>
      pass
      return .mapping tag (← flowEntries true fuel)
    | t =>
      if unindented && t == some .blockEntry then return .sequence tag (← unindentedItems fuel)
      else if block && t == some .blockSequenceStart then
        pass
        return .sequence tag (← blockItems fuel)
      else if block && t == some .blockMappingStart then
        pass
        return .mapping tag (← blockEntries fuel)
      else if mayBeEmpty then return .scalar tag .plain ""
      else failure

/-- Reads the items of an indented sequence. -/
def blockItems : (fuel : Nat) → Read (List Node)
  | 0 => failure
  | fuel + 1 => do
    if ← accept .blockEnd then return []
    expect .blockEntry
    let n ←
      if ← isAt [.blockEntry, .blockEnd] then pure Node.empty else node true false fuel
    return n :: (← blockItems fuel)

/-- Reads the items of a sequence that is not indented. -/
def unindentedItems : (fuel : Nat) → Read (List Node)
  | 0 => failure
  | fuel + 1 => do
    if !(← accept .blockEntry) then return []
    let n ←
      if ← isAt [.blockEntry, .key, .value, .blockEnd] then pure Node.empty
      else node true false fuel
    return n :: (← unindentedItems fuel)

/-- Reads the entries of a block mapping. -/
def blockEntries : (fuel : Nat) → Read (List (Node × Node))
  | 0 => failure
  | fuel + 1 => do
    if ← accept .blockEnd then return []
    expect .key
    let k ← blockPart fuel
    let v ← if ← accept .value then blockPart fuel else pure Node.empty
    return (k, v) :: (← blockEntries fuel)

/-- Reads a key or a value of a block mapping. -/
def blockPart : (fuel : Nat) → Read Node
  | 0 => failure
  | fuel + 1 => do
    if ← isAt [.key, .value, .blockEnd] then return Node.empty else node true true fuel

/-- Reads the items of a flow sequence. An item with a key is a mapping of its own. -/
def flowItems (first : Bool) : (fuel : Nat) → Read (List Node)
  | 0 => failure
  | fuel + 1 => do
    if ← accept .flowSequenceEnd then return []
    if !first then expect .flowEntry
    if ← accept .flowSequenceEnd then return []
    let n ←
      if ← accept .key then
        let k ←
          if ← isAt [.value, .flowEntry, .flowSequenceEnd] then do
            pass
            pure Node.empty
          else node false false fuel
        let v ←
          if ← accept .value then
            if ← isAt [.flowEntry, .flowSequenceEnd] then pure Node.empty
            else node false false fuel
          else pure Node.empty
        pure (.mapping none [(k, v)])
      else node false false fuel
    return n :: (← flowItems false fuel)

/-- Reads the entries of a flow mapping. A node without a colon behind it is a key of nothing. -/
def flowEntries (first : Bool) : (fuel : Nat) → Read (List (Node × Node))
  | 0 => failure
  | fuel + 1 => do
    if ← accept .flowMappingEnd then return []
    if !first then expect .flowEntry
    if ← accept .flowMappingEnd then return []
    let entry ←
      if ← accept .key then
        let k ←
          if ← isAt [.value, .flowEntry, .flowMappingEnd] then pure Node.empty
          else node false false fuel
        let v ←
          if ← accept .value then
            if ← isAt [.flowEntry, .flowMappingEnd] then pure Node.empty
            else node false false fuel
          else pure Node.empty
        pure (k, v)
      else do
        let k ← node false false fuel
        pure (k, Node.empty)
    return entry :: (← flowEntries false fuel)

end

/-- Reads the directives before a document: one version at most, which must be 1.1 or 1.2, and one
for each handle at most. The result says whether there were any. -/
def directives (version : Bool) (handles : List (List Char × List Char)) :
    (fuel : Nat) → Read (Bool × List (List Char × List Char))
  | 0 => failure
  | fuel + 1 => do
    match ← peek with
    | some (.version major minor) =>
      if version || major != 1 || (minor != 1 && minor != 2) then failure
      pass
      directives true handles fuel
    | some (.tagPrefix handle text) =>
      if handles.any (·.1 == handle) then failure
      pass
      directives version ((handle, text) :: handles) fuel
    | _ => return (version || !handles.isEmpty, handles)

/-- Reads the end of a document and of the text. -/
def finish : (fuel : Nat) → Read Unit
  | 0 => failure
  | fuel + 1 => do
    match ← peek with
    | none => return
    | some .documentEnd =>
      pass
      finish fuel
    | _ => failure

/-- Reads the only document of a text. A text without any token holds no node. -/
def document : Read Document := do
  let fuel := 4 * (← get).tokens.length + 8
  if (← peek).isNone then return ⟨none, []⟩
  let (some?, handles) ← directives false [] fuel
  modify fun r =>
    { r with handles := handles ++ [(['!'], ['!']), (['!', '!'], "tag:yaml.org,2002:".toList)] }
  let started ← accept .documentStart
  if some? && !started then failure
  let root ←
    match ← peek with
    | none => if started then pure Node.empty else failure
    | some t =>
      if started && t == .documentEnd then pure Node.empty
      else if started && isDirectiveOrStart t then failure
      else node true false fuel
  finish fuel
  return ⟨some root, (← get).anchored⟩
where
  /-- What can only belong to a second document. -/
  isDirectiveOrStart : Token → Bool
    | .version .. | .tagPrefix .. | .documentStart => true
    | _ => false

end Read

/-- The document that a text holds. -/
def Document.ofString? (s : String) : Option Document := do
  let tokens ← Token.ofChars? (← prepare? s.toList)
  (Read.document.run { tokens }).map (·.1)

end VirtualClock.Yaml

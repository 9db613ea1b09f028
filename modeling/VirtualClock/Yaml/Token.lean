import VirtualClock.Yaml.Tag

/-!
The tokens of a YAML text. The indentation of block collections and the keys that are only told by
the colon behind them are made explicit.
-/

namespace VirtualClock.Yaml

/-- A token. -/
inductive Token where
  | version (major minor : Nat)
  /-- What a handle stands for in the tags of a document. -/
  | tagPrefix (handle text : List Char)
  | documentStart
  | documentEnd
  | blockSequenceStart
  | blockMappingStart
  | blockEnd
  | flowSequenceStart
  | flowSequenceEnd
  | flowMappingStart
  | flowMappingEnd
  | blockEntry
  | flowEntry
  | key
  | value
  | reference (name : List Char)
  | anchor (name : List Char)
  | tag (name : TagName)
  | scalar (style : Style) (text : List Char)
deriving DecidableEq

end VirtualClock.Yaml

import VirtualClock.Log
import VirtualClock.Text.Alphanumeric
import VirtualClock.Text.Blank
import VirtualClock.Yaml.Plain

/-!
The directives of a log filter: up to which level the events of a target pass, possibly only in
spans of a name or with some fields. A directive is `target[span{field=value}]=level`, and any part
may be missing.

Places in a directive are counted from its first character that is not blank, but what stands
between two places is taken from its first character of all. So blanks in front shift every part,
and a part that would then start or end within a character cannot be taken at all.

A value that is no boolean and no number is a pattern. Which texts are patterns, and what they match,
is left to an engine.
-/

namespace VirtualClock.LogFilter

/-- Why a directive cannot be read. -/
inductive Fault where
  | malformed
  /-- A part starts or ends within a character. -/
  | splitsCharacter
deriving DecidableEq

/-- What reads patterns. -/
class PatternEngine where
  /-- The texts that a pattern matches, if it can be read. -/
  compile? : List Char → Option (String → Bool)

/-- The value that a directive asks of a field. -/
inductive FieldValue where
  | bool (b : Bool)
  | number
  | pattern (isMatch : String → Bool)

/-- A field that a directive asks for. -/
structure FieldMatch where
  name : String
  value : Option FieldValue

/-- A directive of a log filter. -/
structure Directive where
  /-- Events of at most this rank pass. -/
  rank : Nat := 5
  target : Option String := none
  span : Option String := none
  fields : List FieldMatch := []

/-- The rank that a text names: a number up to 5, or the name of a level, whatever its case. -/
def rank? (cs : List Char) : Option Nat :=
  match Yaml.digits? 10 (Yaml.dropPlus cs) with
  | some n => if n ≤ 5 then some n else none
  | none =>
    match String.ofList (cs.map Char.toLower) with
    | "off" => some 0
    | "error" => some 1
    | "warn" => some 2
    | "info" => some 3
    | "debug" => some 4
    | "trace" => some 5
    | _ => none

/-- Whether a text is a number, whole or not, finite or not. -/
def isNumber (cs : List Char) : Bool :=
  let unsigned := if Yaml.hasSign cs then cs.drop 1 else cs
  ["inf", "infinity", "nan"].contains (String.ofList (unsigned.map Char.toLower)) ||
    (Yaml.decimal? cs).isSome

/-- Whether a text has the value that is asked for. -/
def FieldValue.accepts (v : FieldValue) (text : String) : Bool :=
  match v with
  | .pattern isMatch => isMatch text
  | _ => false

variable [PatternEngine]

/-- The value that a text denotes. -/
def FieldValue.ofChars? (cs : List Char) : Option FieldValue :=
  if cs == "true".toList then some (.bool true)
  else if cs == "false".toList then some (.bool false)
  else if isNumber cs then some .number
  else (PatternEngine.compile? cs).map .pattern

/-- The field that a text asks for: a name, and possibly a value behind an equals sign. What
follows a second equals sign does not matter. -/
def FieldMatch.ofChars? (cs : List Char) : Option FieldMatch :=
  if cs.isEmpty then none
  else
    let name := cs.takeWhile (· != '=')
    match cs.drop name.length with
    | [] => some ⟨.ofList name, none⟩
    | _ :: rest =>
      (FieldValue.ofChars? (rest.takeWhile (· != '='))).map fun v => ⟨.ofList name, some v⟩

namespace Directive

/-- The text behind the first `n` bytes. -/
def dropBytes : (n : Nat) → List Char → Except Fault (List Char)
  | 0, cs => .ok cs
  | _, [] => .ok []
  | n, c :: cs => if c.utf8Size ≤ n then dropBytes (n - c.utf8Size) cs else .error .splitsCharacter

/-- The first `n` bytes of a text. -/
def takeBytes : (n : Nat) → List Char → Except Fault (List Char)
  | 0, _ => .ok []
  | _, [] => .ok []
  | n, c :: cs =>
    if c.utf8Size ≤ n then (c :: ·) <$> takeBytes (n - c.utf8Size) cs else .error .splitsCharacter

/-- What stands between two places. -/
def slice (text : List Char) (first last : Nat) : Except Fault (List Char) := do
  takeBytes (last - first) (← dropBytes first text)

/-- What is being read; a number is the place where the current part starts. -/
inductive Stage where
  | beginning
  | levelOrTarget (first : Nat)
  | span (first : Nat)
  | field (first : Nat)
  /-- Behind the fields. -/
  | fields
  /-- Behind the target, the span and the fields. -/
  | target
  | level (first : Nat)
deriving DecidableEq

/-- Whether a target or a level may start with `x`. -/
def startsName (x : Char) : Bool :=
  x == '-' || x == ':' || x == '_' || Text.isAlphanumeric x

/-- Reads the character `x` at the place `i`. -/
def step (text : List Char) (i : Nat) (x : Char) (stage : Stage) (d : Directive) :
    Except Fault (Stage × Directive) :=
  match stage with
  | .beginning =>
    if x == '[' then .ok (.span (i + 1), d)
    else if startsName x then .ok (.levelOrTarget i, d)
    else .error .malformed
  | .levelOrTarget first => do
    if x == '=' then
      return (.level (i + 1), { d with target := some (.ofList (← slice text first i)) })
    else if x == '[' then
      return (.span (i + 1), { d with target := some (.ofList (← slice text first i)) })
    else return (stage, d)
  | .span first => do
    if x == ']' then return (.target, { d with span := some (.ofList (← slice text first i)) })
    else if x == '\x7b' then
      let name ← slice text first i
      return (.field (i + 1), { d with span := if name.isEmpty then none else some (.ofList name) })
    else return (stage, d)
  | .field first => do
    if x == '\x7d' then
      match FieldMatch.ofChars? (← slice text first i) with
      | some f => return (.fields, { d with fields := d.fields ++ [f] })
      | none => throw .malformed
    else return (stage, d)
  | .fields => if x == ']' then .ok (.target, d) else .error .malformed
  | .target => if x == '=' then .ok (.level (i + 1), d) else .error .malformed
  | .level _ => .ok (stage, d)

/-- Reads characters from the place `i` on. -/
def steps (text : List Char) :
    (i : Nat) → List Char → Stage → Directive → Except Fault (Stage × Directive)
  | _, [], stage, d => .ok (stage, d)
  | i, x :: rest, stage, d => do
    let (stage, d) ← step text i x stage d
    steps text (i + x.utf8Size) rest stage d

/-- The directive that a text denotes. A text without any part that names one is a level if it can
be, and else a target. -/
def ofChars (text : List Char) : Except Fault Directive := do
  match ← steps text 0 (Text.trim text) .beginning {} with
  | (.levelOrTarget first, d) =>
    let part ← dropBytes first text
    if part.isEmpty then return d
    match rank? part with
    | some rank => return { d with rank }
    | none => return { d with target := some (.ofList part) }
  | (.level first, d) =>
    let part ← dropBytes first text
    if part.isEmpty then return d
    match rank? part with
    | some rank => return { d with rank }
    | none => throw .malformed
  | (.target, d) => return d
  | _ => throw .malformed

/-- A directive is dynamic if it asks for a span, or for what a span may tell. -/
def isDynamic (d : Directive) : Bool := d.span.isSome || !d.fields.isEmpty

/-- A directive is static if it asks for nothing but what is known of an event beforehand. -/
def isStatic (d : Directive) : Bool := d.span.isNone && d.fields.all (·.value.isNone)

end Directive

end VirtualClock.LogFilter

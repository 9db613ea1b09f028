import VirtualClock.LogFilter.Directive

/-!
Log filters: lists of directives that decide which log events pass. Of the static directives that
care about an event the most specific one decides; a dynamic directive lets events pass while a span
it asks for is entered. A filter without directives lets errors pass.
-/

namespace VirtualClock

/-- A log filter. -/
structure LogFilter where
  directives : List LogFilter.Directive

namespace LogFilter

/-- The texts of the directives of a filter; empty ones do not count. -/
def pieces (text : String) : List String := (text.splitOn ",").filter (· != "")

/-- The filter of some directives. -/
def ofDirectives (ds : List Directive) : LogFilter := ⟨if ds.isEmpty then [{ rank := 1 }] else ds⟩

section Reading

variable [PatternEngine]

/-- The filter that a text denotes. -/
def ofString (text : String) : Except Fault LogFilter :=
  ofDirectives <$> (pieces text).mapM (Directive.ofChars ·.toList)

/-- The filter that a text denotes without its malformed directives. -/
def ofStringLossy (text : String) : Except Fault LogFilter := do
  let ds ← (pieces text).mapM fun piece =>
    match Directive.ofChars piece.toList with
    | .ok d => .ok (some d)
    | .error .malformed => .ok none
    | .error .splitsCharacter => .error .splitsCharacter
  return ofDirectives (ds.filterMap id)

end Reading

/-- Whether a directive asks for a target that `target` starts with, or for none. -/
def Directive.isFor (d : Directive) (target : String) : Bool := d.target.all (target.startsWith ·)

/-- Whether a static directive cares about an event. The message is a field of its own. -/
def Directive.selects (d : Directive) (e : LogEvent) : Bool :=
  d.isStatic && d.isFor e.target &&
    d.fields.all fun f => f.name == "message" || e.fields.any (·.1 == f.name)

/-- Whether a dynamic directive cares about a span. -/
def Directive.covers (d : Directive) (s : Span) : Bool :=
  d.isDynamic && d.isFor s.target && d.span.all (· == s.name) &&
    d.fields.all fun f => s.fields.any (·.1 == f.name)

/-- Whether a span has the values that a directive asks for. -/
def Directive.isMetBy (d : Directive) (s : Span) : Bool :=
  d.fields.all fun f =>
    f.value.all fun v => s.fields.any fun (k, text) => k == f.name && v.accepts text

/-- How specific a static directive is: by the length of its target, the number of its fields, and
their names. -/
def Directive.specificity (d : Directive) : Nat × Nat × List String :=
  (match d.target with
    | none => 0
    | some t => t.utf8ByteSize + 1,
   d.fields.length, d.fields.map (·.name))

/-- Whether `d` is not more specific than `e`. -/
def Directive.yieldsTo (d e : Directive) : Bool :=
  let (t, n, names) := d.specificity
  let (t', n', names') := e.specificity
  t < t' || (t == t' && (n < n' || (n == n' && !(names' < names))))

/-- The most specific directive; the last of equally specific ones. -/
def mostSpecific : List Directive → Option Directive
  | [] => none
  | d :: rest =>
    match mostSpecific rest with
    | none => some d
    | some e => some (if d.yieldsTo e then e else d)

/-- Whether the static directives let an event pass. -/
def passesStatic (f : LogFilter) (e : LogEvent) : Bool :=
  (mostSpecific (f.directives.filter (·.selects e))).any fun d => e.level.rank ≤ d.rank

/-- Whether the dynamic directives let an event pass. -/
def passesDynamic (f : LogFilter) (e : LogEvent) : Bool :=
  e.span.any fun s => f.directives.any fun d => d.covers s && d.isMetBy s && e.level.rank ≤ d.rank

/-- Whether an event passes. -/
def passes (f : LogFilter) (e : LogEvent) : Bool := f.passesDynamic e || f.passesStatic e

end LogFilter

end VirtualClock

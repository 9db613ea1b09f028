/-!
Log events: a level, the part of the program that speaks, a message and named values, possibly
inside a span. Values are kept as the text that is logged.
-/

namespace VirtualClock

/-- How much an event matters, from `error` down to `trace`. -/
inductive Level where
  | error
  | warn
  | info
  | debug
  | trace
deriving DecidableEq, Repr

namespace Level

/-- The number of levels that matter at least as much. -/
def rank : Level → Nat
  | error => 1
  | warn => 2
  | info => 3
  | debug => 4
  | trace => 5

/-- The name of a level in log lines. -/
def name : Level → String
  | error => "ERROR"
  | warn => "WARN"
  | info => "INFO"
  | debug => "DEBUG"
  | trace => "TRACE"

end Level

/-- What an event is logged within. -/
structure Span where
  level : Level
  target : String
  name : String
  fields : List (String × String)
deriving DecidableEq

/-- A span with its values, as log lines show it. -/
def Span.text (s : Span) : String :=
  s.name ++ "\x7b" ++ ", ".intercalate (s.fields.map fun (k, v) => k ++ "=" ++ v) ++ "\x7d"

/-- One log event. -/
structure LogEvent where
  level : Level
  /-- The part of the program that logs; filters select by it. -/
  target : String
  message : String
  fields : List (String × String)
  span : Option Span := none
deriving DecidableEq

end VirtualClock

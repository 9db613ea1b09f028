import VirtualClock.Word64

/-!
Values of settings, and laying one layer of settings over another: tables are merged entry by entry,
and any other value replaces what was there.
-/

namespace VirtualClock.Config

/-- A value of a setting. -/
inductive Value where
  | null
  | bool (b : Bool)
  | int (n : Int)
  /-- A number that is not whole. -/
  | float
  | str (s : String)
  | array (items : List Value)
  /-- Entries of different names. -/
  | table (entries : List (String × Value))

namespace Value

instance : Inhabited Value := ⟨null⟩

/-- The value of a name. -/
def lookup (name : String) (entries : List (String × Value)) : Option Value :=
  (entries.find? (·.1 == name)).map (·.2)

/-- The entries with one put in, in place of the one of its name. -/
def put (name : String) (v : Value) : List (String × Value) → List (String × Value)
  | [] => [(name, v)]
  | (k, w) :: rest => if k == name then (k, v) :: rest else (k, w) :: put name v rest

mutual

/-- The value that a value `above` makes of the one below it. -/
def mergeInto (below : Option Value) : (above : Value) → Value
  | table entries =>
    match below with
    | some (table under) => table (mergeEntries under entries)
    | _ => table (mergeEntries [] entries)
  | v => v

/-- The entries that a layer makes of those below it. -/
def mergeEntries (under : List (String × Value)) :
    (above : List (String × Value)) → List (String × Value)
  | [] => under
  | (k, v) :: rest => mergeEntries (put k (mergeInto (lookup k under) v) under) rest

end

/-- The value inside tables of the names on a path. -/
def nest : (path : List String) → Value → Value
  | [], v => v
  | name :: rest, v => table [(name, nest rest v)]

/-- The fields `names` of a value: of a table by name, and of an array by position. -/
def fields? (names : List String) : Value → Option (List (Option Value))
  | table entries => some (names.map (lookup · entries))
  | array items => some ((List.range names.length).map (items[·]?))
  | _ => none

/-- A string. -/
def str? : Value → Option String
  | str s => some s
  | _ => none

/-- A truth value. -/
def bool? : Value → Option Bool
  | bool b => some b
  | _ => none

/-- A whole number of 64 bits without a sign. -/
def unsigned64? : Value → Option Nat
  | int n => if Word64.isUnsigned n then some n.toNat else none
  | _ => none

/-- The first name of a table, in the order of names, and its value. -/
def first? : List (String × Value) → Option (String × Value)
  | [] => none
  | (k, v) :: rest =>
    match first? rest with
    | some (k', v') => if k' < k then some (k', v') else some (k, v)
    | none => some (k, v)

end Value

end VirtualClock.Config

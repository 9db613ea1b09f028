import Mathlib.Data.List.Induction
import Mathlib.Data.List.Nodup
import VirtualClock.Config.Value

/-! Laying one layer of settings over another, seen from a single name, and from a single field of a
section. -/

namespace VirtualClock.Config.Value

/-- Entries of different names. -/
def Distinct (entries : List (String × Value)) : Prop := (entries.map (·.1)).Nodup

theorem distinct_nil : Distinct [] := List.nodup_nil

variable {name k : String} {v : Value} {entries under above : List (String × Value)}

@[simp] theorem lookup_nil (name : String) : lookup name [] = none := rfl

theorem lookup_cons (name k : String) (v : Value) (rest : List (String × Value)) :
    lookup name ((k, v) :: rest) = if k = name then some v else lookup name rest := by
  by_cases h : k = name <;> simp [lookup, h]

theorem lookup_eq_none (h : name ∉ entries.map (·.1)) : lookup name entries = none := by
  rw [lookup, Option.map_eq_none_iff, List.find?_eq_none]
  intro x hx heq
  exact h (List.mem_map.mpr ⟨x, hx, beq_iff_eq.mp heq⟩)

/-- Only the name that is put in changes its value. -/
theorem lookup_put (name k : String) (v : Value) (entries : List (String × Value)) :
    lookup name (put k v entries) = if k = name then some v else lookup name entries := by
  induction entries with
  | nil => rw [put, lookup_cons]
  | cons x rest ih =>
    obtain ⟨k', w⟩ := x
    rw [put]
    by_cases hk : k' = k
    · subst hk
      rw [if_pos (beq_self_eq_true k'), lookup_cons, lookup_cons]
      split <;> rfl
    · rw [if_neg (by simpa using hk), lookup_cons, lookup_cons, ih]
      by_cases hname : k' = name
      · rw [if_pos hname, if_pos hname, if_neg fun h => hk (hname.trans h.symm)]
      · rw [if_neg hname, if_neg hname]

theorem mem_names_put {x : String} :
    x ∈ (put k v entries).map (·.1) ↔ x ∈ entries.map (·.1) ∨ x = k := by
  induction entries with
  | nil => simp [put]
  | cons e rest ih =>
    obtain ⟨k', w⟩ := e
    rw [put]
    by_cases hk : k' = k
    · subst hk
      simp [or_comm]
    · rw [if_neg (by simpa using hk), List.map_cons, List.map_cons, List.mem_cons, List.mem_cons,
        ih, or_assoc]

theorem mem_of_mem_put {x : String × Value} (h : x ∈ put k v entries) :
    x = (k, v) ∨ x ∈ entries := by
  induction entries with
  | nil => exact .inl (List.mem_singleton.mp h)
  | cons e rest ih =>
    obtain ⟨k', w⟩ := e
    rw [put] at h
    by_cases hk : k' = k
    · rw [if_pos (by simpa using hk)] at h
      obtain rfl | hrest := List.mem_cons.mp h
      · exact .inl (by rw [hk])
      · exact .inr (List.mem_cons_of_mem _ hrest)
    · rw [if_neg (by simpa using hk)] at h
      obtain rfl | hrest := List.mem_cons.mp h
      · exact .inr List.mem_cons_self
      · exact (ih hrest).imp_right (List.mem_cons_of_mem _)

theorem distinct_put (h : Distinct entries) (k : String) (v : Value) :
    Distinct (put k v entries) := by
  induction entries with
  | nil => exact List.nodup_singleton k
  | cons e rest ih =>
    obtain ⟨k', w⟩ := e
    obtain ⟨hnotin, hrest⟩ := List.nodup_cons.mp h
    rw [put]
    by_cases hk : k' = k
    · rw [if_pos (by simpa using hk)]
      exact h
    · rw [if_neg (by simpa using hk)]
      refine List.nodup_cons.mpr ⟨fun hmem => ?_, ih hrest⟩
      obtain hold | hnew := mem_names_put.mp hmem
      · exact hnotin hold
      · exact hk hnew

theorem distinct_mergeEntries (h : Distinct under) (above : List (String × Value)) :
    Distinct (mergeEntries under above) := by
  induction above generalizing under with
  | nil => rw [mergeEntries]; exact h
  | cons e rest ih =>
    rw [mergeEntries]
    exact ih (distinct_put h _ _)

/-- What a value that may be missing makes of the one below it. -/
def overlay (below : Option Value) : (above : Option Value) → Option Value
  | none => below
  | some v => some (mergeInto below v)

/-- A name takes what the layer above makes of its value below, whatever else there is. -/
theorem lookup_mergeEntries (h : Distinct above) (name : String) (under : List (String × Value)) :
    lookup name (mergeEntries under above) = overlay (lookup name under) (lookup name above) := by
  induction above generalizing under with
  | nil => rw [mergeEntries]; rfl
  | cons e rest ih =>
    obtain ⟨k, v⟩ := e
    obtain ⟨hnotin, hrest⟩ := List.nodup_cons.mp h
    rw [mergeEntries, ih hrest, lookup_put, lookup_cons]
    by_cases hk : k = name
    · subst hk
      rw [if_pos rfl, if_pos rfl, lookup_eq_none hnotin]
      rfl
    · rw [if_neg hk, if_neg hk]

/-- A value that is no table replaces what was below it. -/
theorem mergeInto_eq (h : ∀ entries, v ≠ table entries) (below : Option Value) :
    mergeInto below v = v := by
  cases v with
  | table entries => exact absurd rfl (h entries)
  | _ => rfl

theorem mergeInto_table (below : Option Value) (entries : List (String × Value)) :
    ∃ es, mergeInto below (table entries) = table es := by
  rw [mergeInto.eq_def]
  dsimp only
  split <;> exact ⟨_, rfl⟩

/-- Values laid over each other, from the lowest one up. -/
def stack (values : List (Option Value)) : Option Value := values.foldl overlay none

/-- The last value that is there. -/
def last? (values : List (Option Value)) : Option Value :=
  values.foldl (fun below above => above.or below) none

theorem stack_concat (values : List (Option Value)) (v : Option Value) :
    stack (values ++ [v]) = overlay (stack values) v := List.foldl_concat ..

theorem last?_concat (values : List (Option Value)) (v : Option Value) :
    last? (values ++ [v]) = v.or (last? values) := List.foldl_concat ..

/-- Some value results as soon as there is one. -/
theorem exists_stack {values : List (Option Value)} (h : some v ∈ values) :
    ∃ w, stack values = some w := by
  induction values using List.reverseRecOn with
  | nil => exact absurd h List.not_mem_nil
  | append_singleton values w ih =>
    rw [stack_concat]
    cases w with
    | none =>
      obtain hold | hnew := List.mem_append.mp h
      · exact ih hold
      · cases List.mem_singleton.mp hnew
    | some w => exact ⟨_, rfl⟩

/-- The last value counts, unless it is a table. -/
theorem stack_eq_last? {values : List (Option Value)} (hlast : last? values = some v)
    (h : ∀ entries, v ≠ table entries) : stack values = some v := by
  induction values using List.reverseRecOn with
  | nil => cases hlast
  | append_singleton values w ih =>
    rw [last?_concat] at hlast
    rw [stack_concat]
    cases w with
    | none => exact ih hlast
    | some w =>
      obtain rfl := Option.some.inj hlast
      exact congrArg some (mergeInto_eq h _)

/-- What is not read from tables is read from the last value alone. -/
theorem bind_stack {α : Type} {f : Value → Option α} (hf : ∀ entries, f (table entries) = none)
    (values : List (Option Value)) : (stack values).bind f = (last? values).bind f := by
  induction values using List.reverseRecOn with
  | nil => rfl
  | append_singleton values v ih =>
    rw [stack_concat, last?_concat]
    cases v with
    | none => exact ih
    | some v =>
      show f (mergeInto (stack values) v) = f v
      cases v with
      | table entries =>
        obtain ⟨es, hes⟩ := mergeInto_table (stack values) entries
        rw [hes, hf, hf]
      | _ => rfl

/-! ### Fields of sections -/

/-- The value that a layer gives to a field of a section. -/
def setting? (section_ field : String) (layer : List (String × Value)) : Option Value :=
  match lookup section_ layer with
  | some (.table entries) => lookup field entries
  | _ => none

/-- A layer with different names in which a section, if it is there, is a table with different
names. -/
structure Sectioned (section_ : String) (layer : List (String × Value)) : Prop where
  distinct : Distinct layer
  isTable : ∀ v ∈ lookup section_ layer, ∃ entries, v = .table entries ∧ Distinct entries

variable {section_ : String}

theorem Sectioned.merge (h : Sectioned section_ under) (h' : Sectioned section_ above) :
    Sectioned section_ (mergeEntries under above) := by
  refine ⟨distinct_mergeEntries h.distinct above, fun v hv => ?_⟩
  rw [lookup_mergeEntries h'.distinct] at hv
  cases habove : lookup section_ above with
  | none =>
    rw [habove] at hv
    exact h.isTable v hv
  | some w =>
    obtain ⟨entries, rfl, -⟩ := h'.isTable w habove
    rw [habove, overlay, Option.mem_some_iff] at hv
    subst hv
    cases hunder : lookup section_ under with
    | none => exact ⟨_, rfl, distinct_mergeEntries distinct_nil entries⟩
    | some w =>
      obtain ⟨es, rfl, hdistinct⟩ := h.isTable w hunder
      exact ⟨_, rfl, distinct_mergeEntries hdistinct entries⟩

/-- A field takes what the layer above makes of its value below, whatever else there is. -/
theorem Sectioned.setting?_merge (h : Sectioned section_ under) (h' : Sectioned section_ above)
    (field : String) : setting? section_ field (mergeEntries under above) =
      overlay (setting? section_ field under) (setting? section_ field above) := by
  rw [setting?, setting?, setting?, lookup_mergeEntries h'.distinct]
  cases habove : lookup section_ above with
  | none => rfl
  | some v =>
    obtain ⟨entries, rfl, hdistinct⟩ := h'.isTable v habove
    cases hunder : lookup section_ under with
    | none => exact lookup_mergeEntries hdistinct field []
    | some w =>
      obtain ⟨es, rfl, -⟩ := h.isTable w hunder
      exact lookup_mergeEntries hdistinct field es

/-- A field of layers that are laid over each other has the values that they give to it, laid over
each other. -/
theorem Sectioned.foldl {layers : List (List (String × Value))}
    (h : ∀ layer ∈ layers, Sectioned section_ layer) :
    Sectioned section_ (layers.foldl mergeEntries []) ∧ ∀ field,
      setting? section_ field (layers.foldl mergeEntries []) =
        stack (layers.map (setting? section_ field)) := by
  induction layers using List.reverseRecOn with
  | nil => exact ⟨⟨distinct_nil, fun v hv => by cases hv⟩, fun _ => rfl⟩
  | append_singleton layers layer ih =>
    obtain ⟨hsectioned, hsetting⟩ := ih fun l hl => h l (List.mem_append_left _ hl)
    have hlayer := h layer (List.mem_append_right _ List.mem_cons_self)
    rw [List.foldl_concat]
    refine ⟨hsectioned.merge hlayer, fun field => ?_⟩
    rw [hsectioned.setting?_merge hlayer, hsetting, List.map_append, List.map_singleton,
      stack_concat]

end VirtualClock.Config.Value

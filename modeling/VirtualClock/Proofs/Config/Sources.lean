import VirtualClock.Config.Load
import VirtualClock.Proofs.Config.Merge
import VirtualClock.Proofs.Text.Pieces

/-! What the sources of settings give: a file gives different names in every mapping, and the
environment gives each field what its variables make of it, one after another. -/

namespace VirtualClock.Config

open Value

/-! ### Files -/

section Read

variable {σ α β : Type} {s s' : σ}

theorem bind_eq_some {x : StateT σ Option α} {f : α → StateT σ Option β} {b : β} :
    (x >>= f) s = some (b, s') ↔ ∃ a s₁, x s = some (a, s₁) ∧ f a s₁ = some (b, s') := by
  show (x s).bind (fun p => f p.1 p.2) = _ ↔ _
  rw [Option.bind_eq_some_iff]
  constructor
  · rintro ⟨⟨a, s₁⟩, hx, hf⟩
    exact ⟨a, s₁, hx, hf⟩
  · rintro ⟨a, s₁, hx, hf⟩
    exact ⟨(a, s₁), hx, hf⟩

/-- What holds of every result holds of the results of a list. -/
theorem forall_mem_mapM {f : α → StateT σ Option β} {P : β → Prop}
    (h : ∀ x s b s', f x s = some (b, s') → P b) {l : List α} {bs : List β}
    (hl : l.mapM f s = some (bs, s')) : ∀ b ∈ bs, P b := by
  induction l generalizing s s' bs with
  | nil =>
    rw [List.mapM_nil] at hl
    cases hl
    exact fun b hb => absurd hb List.not_mem_nil
  | cons x l ih =>
    rw [List.mapM_cons] at hl
    obtain ⟨b, s₁, hx, hl⟩ := bind_eq_some.mp hl
    obtain ⟨bs', s₂, hrest, hl⟩ := bind_eq_some.mp hl
    cases hl
    exact List.forall_mem_cons.mpr ⟨h x s b s₁ hx, ih hrest⟩

end Read

/-- Entries that are put in one after another have different names, and are some of those put in. -/
theorem foldl_put {l under : List (String × Value)} (hunder : Distinct under) :
    Distinct (l.foldl (fun t (k, v) => put k v t) under) ∧
      ∀ x ∈ l.foldl (fun t (k, v) => put k v t) under, x ∈ under ∨ x ∈ l := by
  induction l generalizing under with
  | nil => exact ⟨hunder, fun x hx => .inl hx⟩
  | cons e l ih =>
    obtain ⟨hdistinct, hmem⟩ := ih (distinct_put hunder e.1 e.2)
    refine ⟨hdistinct, fun x hx => ?_⟩
    obtain hput | hrest := hmem x hx
    · obtain rfl | hold := mem_of_mem_put hput
      · exact .inr List.mem_cons_self
      · exact .inl hold
    · exact .inr (List.mem_cons_of_mem e hrest)

theorem ofScalar?_ne_table {tag : Option String} {style : Yaml.Style} {text : String}
    {entries : List (String × Value)} : ofScalar? tag style text ≠ some (.table entries) := by
  have hplain (cs : List Char) : ofScalar?.plain cs ≠ .table entries := by
    unfold ofScalar?.plain
    split <;> simp
  unfold ofScalar?
  cases tag with
  | none =>
    dsimp only
    split
    · simpa using hplain text.toList
    · simp
  | some t =>
    dsimp only
    split
    · simp
    · split <;> simp

/-- A mapping that is read comes from entries whose values are read. -/
theorem ofNode?_table {d : Yaml.Document} {depth : Nat} {n : Yaml.Node} {fuel fuel' : Nat}
    {entries : List (String × Value)} (h : ofNode? d depth n fuel = some (.table entries, fuel')) :
    ∃ l : List (String × Value), entries = l.foldl (fun t (k, v) => put k v t) [] ∧
      ∀ x ∈ l, ∃ depth n fuel fuel', ofNode? d depth n fuel = some (x.2, fuel') := by
  rw [ofNode?] at h
  obtain ⟨m, s₁, -, h⟩ := bind_eq_some.mp h
  cases m with
  | scalar tag style text =>
    obtain ⟨v, hv, heq⟩ := Option.bind_eq_some_iff.mp h
    obtain rfl : v = .table entries := congrArg Prod.fst (Option.some.inj heq)
    exact absurd hv ofScalar?_ne_table
  | sequence tag items =>
    cases depth with
    | zero => cases h
    | succ depth =>
      dsimp only at h
      split at h
      · obtain ⟨_, _, hfail, -⟩ := bind_eq_some.mp h
        cases hfail
      · obtain ⟨vs, s₂, -, h⟩ := bind_eq_some.mp h
        cases h
  | mapping tag entries' =>
    cases depth with
    | zero => cases h
    | succ depth =>
      dsimp only at h
      split at h
      · obtain ⟨_, _, hfail, -⟩ := bind_eq_some.mp h
        cases hfail
      · obtain ⟨l, s₂, hl, h⟩ := bind_eq_some.mp h
        cases h
        refine ⟨l, rfl, forall_mem_mapM (fun (k, v) s x s' hx => ?_) hl⟩
        obtain ⟨name, s₃, -, hx⟩ := bind_eq_some.mp hx
        obtain ⟨w, s₄, hw, hx⟩ := bind_eq_some.mp hx
        cases hx
        exact ⟨depth, v, s₃, _, hw⟩
  | reference k => cases h

/-- The settings that a text holds have different names, and so have the tables among them. -/
theorem ofYaml?_distinct {text : String} {entries : List (String × Value)}
    (h : ofYaml? text = some entries) :
    Distinct entries ∧ ∀ x ∈ entries, ∀ es, x.2 = .table es → Distinct es := by
  obtain ⟨d, -, h⟩ := Option.bind_eq_some_iff.mp h
  unfold ofDocument? at h
  split at h
  · cases h
    exact ⟨distinct_nil, fun x hx => absurd hx List.not_mem_nil⟩
  · split at h
    · cases h
      exact ⟨distinct_nil, fun x hx => absurd hx List.not_mem_nil⟩
    · obtain ⟨⟨v, fuel⟩, hv, h⟩ := Option.bind_eq_some_iff.mp h
      cases v with
      | table es =>
        cases h
        obtain ⟨l, rfl, hl⟩ := ofNode?_table hv
        obtain ⟨hdistinct, hmem⟩ := foldl_put (l := l) distinct_nil
        refine ⟨hdistinct, fun x hx es hes => ?_⟩
        obtain hnil | hx := hmem x hx
        · exact absurd hnil List.not_mem_nil
        · obtain ⟨depth, n, fuel, fuel', hread⟩ := hl x hx
          rw [hes] at hread
          obtain ⟨l', rfl, -⟩ := ofNode?_table hread
          exact (foldl_put distinct_nil).1
      | _ => cases h
    · cases h

theorem mem_of_lookup {name : String} {v : Value} {entries : List (String × Value)}
    (h : lookup name entries = some v) : (name, v) ∈ entries := by
  obtain ⟨⟨k, w⟩, hfind, hw⟩ := Option.map_eq_some_iff.mp h
  have hk := List.find?_some hfind
  obtain rfl : k = name := beq_iff_eq.mp hk
  obtain rfl : w = v := hw
  exact List.mem_of_find?_eq_some hfind

/-- In the layer of a file a section is a table with different names as soon as it is a table. -/
theorem sectioned_fileLayer {files : FileTree} {path section_ : String}
    {entries : List (String × Value)} (h : fileLayer files path = .ok entries)
    (htable : ∀ v ∈ lookup section_ entries, ∃ es, v = .table es) : Sectioned section_ entries := by
  have hdistinct : Distinct entries ∧ ∀ x ∈ entries, ∀ es, x.2 = .table es → Distinct es := by
    unfold fileLayer at h
    split at h
    · cases h
      exact ⟨distinct_nil, fun x hx => absurd hx List.not_mem_nil⟩
    · split at h
      · rename_i hread
        cases h
        obtain ⟨text, -, htext⟩ := Option.bind_eq_some_iff.mp hread
        exact ofYaml?_distinct htext
      · cases h
  refine ⟨hdistinct.1, fun v hv => ?_⟩
  obtain ⟨es, rfl⟩ := htable v hv
  exact ⟨es, rfl, hdistinct.2 _ (mem_of_lookup hv) es rfl⟩

/-- The settings of the file that a path from the base leads to. -/
theorem fileLayer_eq {files : FileTree} {path : String} (names : List String) (text : String)
    {entries : List (String × Value)} (hne : path ≠ "") (hbase : path.startsWith "/" = false)
    (hnames : path.splitOn "/" = names)
    (htext : (files.walk? files.base names).bind files.content? = some (some text))
    (hentries : ofYaml? text = some entries) : fileLayer files path = .ok entries := by
  have hread : files.read? path = some (some text) := by
    rw [FileTree.read?, FileTree.locate?, if_neg (by simpa using hne), FileTree.start, hbase,
      FileTree.names, hnames]
    exact htext
  rw [fileLayer, hread]
  simp [hentries]

/-! ### Environment variables -/

/-- The value that an environment variable gives to a field of a section. -/
def ofVariable? (section_ field : String) (var : String × String) : Option Value :=
  match settingPath? var.1 with
  | some (s :: f :: rest) =>
    if s = section_ ∧ f = field then some (nest rest (Inline.ofString var.2)) else none
  | _ => none

/-- The path of a setting in the name of its environment variable. -/
theorem settingPath?_eq {name : String} (rest : String) {path : List String}
    (hname : (Text.trim name.toList).map Char.toLower = marker ++ rest.toList)
    (hrest : (String.ofList (pointed rest.toList)).splitOn "." = path)
    (hpath : path.contains "" = false) : settingPath? name = some path := by
  have hmarker : marker.isPrefixOf (marker ++ rest.toList) = true :=
    List.isPrefixOf_iff_prefix.mpr (List.prefix_append ..)
  simp only [settingPath?, hname, hmarker, List.drop_left, hrest, hpath]
  rfl

theorem settingPath?_ne_nil (name : String) : settingPath? name ≠ some [] := by
  unfold settingPath?
  dsimp only
  split
  · simp
  · split
    · simp
    · intro h
      exact Text.splitOn_ne_nil _ '.' (Option.some.inj h)

/-- The settings with those of one more environment variable laid over them. -/
def withVariable (under : List (String × Value)) (var : String × String) : List (String × Value) :=
  match settingPath? var.1 with
  | none => under
  | some path =>
    match nest path (Inline.ofString var.2) with
    | .table above => mergeEntries under above
    | _ => under

theorem ofVariable?_cons {section_ field name : String} {rest : List String}
    {var : String × String} (hpath : settingPath? var.1 = some (name :: rest))
    (hvar : name :: rest ≠ [section_]) :
    setting? section_ field [(name, nest rest (Inline.ofString var.2))] =
      ofVariable? section_ field var := by
  rw [ofVariable?, hpath, setting?, lookup_cons]
  by_cases hname : name = section_
  · subst hname
    cases rest with
    | nil => exact absurd rfl hvar
    | cons f rest =>
      rw [if_pos rfl, nest]
      dsimp only
      rw [lookup_cons, lookup_nil]
      simp only [true_and]
  · cases rest with
    | nil => simp [hname]
    | cons f rest => simp [hname]

/-- An environment variable that is not for a section as a whole gives what it gives to a field of
the section. -/
theorem sectioned_withVariable {section_ : String} {under : List (String × Value)}
    {var : String × String} (h : Sectioned section_ under)
    (hvar : settingPath? var.1 ≠ some [section_]) :
    Sectioned section_ (withVariable under var) ∧ ∀ field,
      setting? section_ field (withVariable under var) =
        overlay (setting? section_ field under) (ofVariable? section_ field var) := by
  cases hpath : settingPath? var.1 with
  | none =>
    rw [withVariable, hpath]
    exact ⟨h, fun field => by rw [ofVariable?, hpath]; rfl⟩
  | some path =>
    cases path with
    | nil => exact absurd hpath (settingPath?_ne_nil var.1)
    | cons name rest =>
      rw [hpath, Ne, Option.some.injEq] at hvar
      have habove : Sectioned section_ [(name, nest rest (Inline.ofString var.2))] := by
        refine ⟨List.nodup_singleton name, fun w hw => ?_⟩
        rw [lookup_cons] at hw
        split at hw
        · rename_i hname
          obtain rfl := Option.some.inj hw
          cases rest with
          | nil => exact absurd (by rw [hname]) hvar
          | cons f rest => exact ⟨_, rfl, List.nodup_singleton f⟩
        · cases hw
      rw [withVariable, hpath]
      refine ⟨h.merge habove, fun field => (h.setting?_merge habove field).trans ?_⟩
      rw [ofVariable?_cons hpath hvar]

/-- The settings of the environment variables give to a field what its variables make of it, one
after another. -/
theorem setting?_environmentLayer {section_ : String} {env : Environment}
    (h : ∀ var ∈ env, settingPath? var.1 ≠ some [section_]) :
    Sectioned section_ (environmentLayer env) ∧ ∀ field,
      setting? section_ field (environmentLayer env) =
        stack (env.map (ofVariable? section_ field)) := by
  have hfold (env : Environment) (h : ∀ var ∈ env, settingPath? var.1 ≠ some [section_])
      (under : List (String × Value)) (hunder : Sectioned section_ under) :
      Sectioned section_ (env.foldl withVariable under) ∧ ∀ field,
        setting? section_ field (env.foldl withVariable under) =
          (env.map (ofVariable? section_ field)).foldl overlay
            (setting? section_ field under) := by
    induction env generalizing under with
    | nil => exact ⟨hunder, fun _ => rfl⟩
    | cons var env ih =>
      rw [List.forall_mem_cons] at h
      obtain ⟨hsectioned, hsetting⟩ := sectioned_withVariable hunder h.1
      obtain ⟨hlayer, hrest⟩ := ih h.2 _ hsectioned
      refine ⟨hlayer, fun field => ?_⟩
      rw [List.map_cons, List.foldl_cons, List.foldl_cons, hrest, hsetting]
  exact hfold env h [] ⟨distinct_nil, fun v hv => by cases hv⟩

end VirtualClock.Config

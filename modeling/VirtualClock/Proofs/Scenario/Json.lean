import Mathlib.Data.List.Forall2
import VirtualClock.Proofs.Advance
import VirtualClock.Proofs.Json
import VirtualClock.Proofs.Reading
import VirtualClock.Replay
import VirtualClock.Scenario.Json

/-! Scenarios as JSON texts. A scenario is read from the text that is written for it, so a replay of
what was read is a replay of the scenario. The scenarios for which that holds are all that can be
read from any text. -/

namespace VirtualClock

/-- Both counts of milliseconds have 64 bits with a sign. -/
structure TimerSpec.Proper (t : TimerSpec) : Prop where
  after : Word64.isSigned t.after
  period : ∀ ms ∈ t.period, Word64.isSigned ms

namespace TimerSpec

theorem fields?_toJson (t : TimerSpec) : t.toJson.fields? ["name", "after_ms", "repeat_ms"] =
    some [some (.str t.name), some (.int t.after), some (t.period.elim .null .int)] := by
  cases hperiod : t.period <;> simp [toJson, Json.fields?, Json.member?, hperiod]

/-- A timer is read from the object that is written for it. -/
theorem ofJson?_toJson {t : TimerSpec} (h : t.Proper) : ofJson? t.toJson = some t := by
  obtain ⟨name, after, period⟩ := t
  have hafter : (Json.int after).signed64? = some after := if_pos h.after
  rw [ofJson?, fields?_toJson]
  cases period with
  | none =>
    show ((Json.int after).signed64?.bind fun ms => some (⟨name, ms, none⟩ : TimerSpec)) = _
    rw [hafter]
    rfl
  | some ms =>
    have hperiod : (Json.int ms).signed64? = some ms := if_pos (h.period ms rfl)
    show (((Json.int ms).signed64?.map some).bind fun period =>
      (Json.int after).signed64?.bind fun ms => some (⟨name, ms, period⟩ : TimerSpec)) = _
    rw [hafter, hperiod]
    rfl

theorem integral_toJson {t : TimerSpec} (h : t.Proper) : t.toJson.Integral := by
  refine .obj fun m hm => ?_
  simp only [List.mem_cons, List.not_mem_nil, or_false] at hm
  obtain rfl | rfl | rfl := hm
  · exact .str t.name
  · exact .int (.inl h.after)
  · cases hperiod : t.period with
    | none => exact .null
    | some ms => exact .int (.inl (h.period ms hperiod))

theorem signed64?_proper {v : Json} {n : Int} (h : v.signed64? = some n) : Word64.isSigned n := by
  cases v with
  | int m =>
    obtain ⟨hsigned, h⟩ := Option.ite_none_right_eq_some.mp h
    cases h
    exact hsigned
  | _ => cases h

theorem proper_of_fields {name after : Json} {period : Option Int} {t : TimerSpec}
    (hperiod : ∀ ms ∈ period, Word64.isSigned ms)
    (h : (do return ⟨← name.str?, ← after.signed64?, period⟩ : Option TimerSpec) = some t) :
    t.Proper := by
  obtain ⟨name, -, h⟩ := Option.bind_eq_some_iff.mp h
  obtain ⟨ms, hafter, h⟩ := Option.bind_eq_some_iff.mp h
  cases h
  exact ⟨signed64?_proper hafter, hperiod⟩

theorem ofJson?_proper {v : Json} {t : TimerSpec} (h : ofJson? v = some t) : t.Proper := by
  obtain ⟨fields, -, h⟩ := Option.bind_eq_some_iff.mp h
  split at h
  · dsimp only at h
    split at h
    · exact proper_of_fields (fun ms hms => by cases hms) h
    · exact proper_of_fields (fun ms hms => by cases hms) h
    · obtain ⟨period, hperiod, h⟩ := Option.bind_eq_some_iff.mp h
      obtain ⟨ms, hms, rfl⟩ := Option.map_eq_some_iff.mp hperiod
      refine proper_of_fields ?_ h
      rintro _ ⟨⟩
      exact signed64?_proper hms
  · cases h

end TimerSpec

namespace Scenario

/-- A scenario whose counts of milliseconds have 64 bits. -/
structure Bounded (s : Scenario) : Prop where
  timers : ∀ t ∈ s.timers, t.Proper
  advances : ∀ ms ∈ s.advances, Word64.isUnsigned (ms : Int)

/-- A scenario whose epoch is in no leap second but one that ends a minute. -/
structure Proper (s : Scenario) : Prop extends Bounded s where
  epoch : s.epoch.Proper

/-- The text that is written for a scenario. -/
def encode (s : Scenario) : String := s.toJson.render

/-- The scenario that a text denotes. -/
def decode? (text : String) : Option Scenario := (Json.parse? text).bind ofJson?

theorem integral_toJson {s : Scenario} (h : s.Bounded) : s.toJson.Integral := by
  refine .obj fun m hm => ?_
  simp only [List.mem_cons, List.not_mem_nil, or_false] at hm
  obtain rfl | rfl | rfl := hm
  · exact .str _
  · refine .arr fun v hv => ?_
    obtain ⟨t, ht, rfl⟩ := List.mem_map.mp hv
    exact TimerSpec.integral_toJson (h.timers t ht)
  · refine .arr fun v hv => ?_
    obtain ⟨ms, hms, rfl⟩ := List.mem_map.mp hv
    exact .int (.inr (h.advances ms hms))

theorem fields?_toJson (s : Scenario) : s.toJson.fields? ["epoch", "timers", "advances"] =
    some [some (.str (.ofList (s.epoch.rfc3339 .fewest))),
      some (.arr (s.timers.map TimerSpec.toJson)),
      some (.arr (s.advances.map fun (ms : Nat) => .int ms))] := by
  simp [toJson, Json.fields?, Json.member?]

/-- A list is read element by element. -/
theorem mapM_map_eq_some {α β : Type} {f : α → β} {g : β → Option α} {l : List α}
    (h : ∀ a ∈ l, g (f a) = some a) : (l.map f).mapM g = some l := by
  induction l with
  | nil => rfl
  | cons a l ih =>
    obtain ⟨ha, hl⟩ := List.forall_mem_cons.mp h
    rw [List.map_cons, List.mapM_cons, ha, ih hl]
    rfl

/-- A scenario is read from the object that is written for it. -/
theorem ofJson?_toJson {s : Scenario} (h : s.Proper) : ofJson? s.toJson = some s := by
  have hepoch : Reading.ofString? (.ofList (s.epoch.rfc3339 .fewest)) = some s.epoch := by
    rw [Reading.ofString?, String.toList_ofList, Reading.ofChars?_rfc3339 h.epoch]
  have htimers : (Json.arr (s.timers.map TimerSpec.toJson)).list? TimerSpec.ofJson? =
      some s.timers :=
    mapM_map_eq_some fun t ht => TimerSpec.ofJson?_toJson (h.timers t ht)
  have hadvances : (Json.arr (s.advances.map fun (ms : Nat) => .int ms)).list? Json.unsigned64? =
      some s.advances :=
    mapM_map_eq_some fun ms hms => if_pos (h.advances ms hms)
  rw [ofJson?, fields?_toJson]
  simp only [Option.bind_eq_bind, Option.bind_some, Json.str?, Option.getD_some, hepoch, htimers,
    hadvances]
  rfl

theorem decode?_encode_eq {s : Scenario} (h : s.Proper) : decode? s.encode = some s := by
  rw [decode?, encode, Json.parse?_render (integral_toJson h.toBounded), Option.bind_some,
    ofJson?_toJson h]

/-- What is read from every element of a list. -/
theorem forall_of_mapM {α β : Type} {f : α → Option β} {P : β → Prop}
    (hf : ∀ a b, f a = some b → P b) {l : List α} {bs : List β} (h : l.mapM f = some bs) :
    ∀ b ∈ bs, P b := by
  induction l generalizing bs with
  | nil =>
    cases h
    nofun
  | cons a l ih =>
    rw [List.mapM_cons] at h
    obtain ⟨b, hb, h⟩ := Option.bind_eq_some_iff.mp h
    obtain ⟨bs, hbs, h⟩ := Option.bind_eq_some_iff.mp h
    cases h
    exact List.forall_mem_cons.mpr ⟨hf a b hb, ih hbs⟩

theorem forall_of_list? {β : Type} {f : Json → Option β} {P : β → Prop}
    (hf : ∀ v b, f v = some b → P b) {v : Json} {bs : List β} (h : v.list? f = some bs) :
    ∀ b ∈ bs, P b := by
  cases v with
  | arr elements => exact forall_of_mapM hf h
  | _ => cases h

theorem unsigned64?_proper {v : Json} {n : Nat} (h : v.unsigned64? = some n) :
    Word64.isUnsigned (n : Int) := by
  cases v with
  | int m =>
    obtain ⟨hunsigned, h⟩ := Option.ite_none_right_eq_some.mp h
    have hpos : 0 ≤ m := by
      simp only [Word64.isUnsigned, Bool.and_eq_true, decide_eq_true_eq] at hunsigned
      exact hunsigned.1
    cases h
    rwa [Int.toNat_of_nonneg hpos]
  | _ => cases h

theorem ofJson?_proper {v : Json} {s : Scenario} (h : ofJson? v = some s) : s.Proper := by
  obtain ⟨fields, -, h⟩ := Option.bind_eq_some_iff.mp h
  split at h
  · obtain ⟨text, -, h⟩ := Option.bind_eq_some_iff.mp h
    obtain ⟨epoch, hepoch, h⟩ := Option.bind_eq_some_iff.mp h
    obtain ⟨timers, htimers, h⟩ := Option.bind_eq_some_iff.mp h
    obtain ⟨advances, hadvances, h⟩ := Option.bind_eq_some_iff.mp h
    cases h
    exact ⟨⟨forall_of_list? (fun v t => TimerSpec.ofJson?_proper) htimers,
      forall_of_list? (fun v n => unsigned64?_proper) hadvances⟩, Reading.ofChars?_proper hepoch⟩
  · cases h

/-- The scenarios that are read as they are written are those that can be read at all. -/
theorem proper_iff_exists_decode? (s : Scenario) : s.Proper ↔ ∃ text, decode? text = some s := by
  refine ⟨fun h => ⟨s.encode, decode?_encode_eq h⟩, ?_⟩
  rintro ⟨text, h⟩
  obtain ⟨v, -, hv⟩ := Option.bind_eq_some_iff.mp h
  exact ofJson?_proper hv

/-- How a scenario is written as the value `v`: its epoch with no digits of a second, or three, six
or nine, and in UTC; a period that a timer does not have as `null`. -/
structure WrittenAs (s : Scenario) (v : Json) : Prop where
  epoch : ∃ fraction : List Char,
    v.get? "epoch" = some (.str (.ofList (s.epoch.wholeText ++ fraction ++ ['Z']))) ∧
      (fraction = [] ∨ ∃ digits, fraction = '.' :: digits ∧ digits.length ∈ [3, 6, 9] ∧
        ∀ c ∈ digits, Text.isDigit c = true)
  timers : ∃ vs, v.get? "timers" = some (.arr vs) ∧
    List.Forall₂ (fun t w => w.get? "repeat_ms" = some (t.period.elim .null .int)) s.timers vs

theorem writtenAs_toJson (s : Scenario) : s.WrittenAs s.toJson where
  epoch := by
    refine ⟨_, ?_, Reading.fractionText_cases s.epoch.instant.nanoOfSecond_lt⟩
    rw [← Reading.rfc3339_eq]
    simp [toJson, Json.get?, Json.member?]
  timers := by
    refine ⟨s.timers.map TimerSpec.toJson, by simp [toJson, Json.get?, Json.member?], ?_⟩
    rw [List.forall₂_map_right_iff, List.forall₂_same]
    intro t _
    cases hperiod : t.period <;> simp [TimerSpec.toJson, Json.get?, Json.member?, hperiod]

/-- A scenario is written with its counts in full. If its epoch is in no leap second but one that
ends a minute, the scenario is read from the text, whatever the year, the fraction of a second, the
names of its timers and its counts of milliseconds are; so a replay of what is read is a replay of
the scenario. With any other epoch, there is no text that it is read from. -/
theorem decode_encode (s : Scenario) (h : s.Bounded) :
    (∃ v, Json.parse? s.encode = some v ∧ s.WrittenAs v) ∧
      (s.epoch.Proper → decode? s.encode = some s ∧
        ∀ fuel p, (decode? s.encode).map (Replay.run fuel p) = some (Replay.run fuel p s)) ∧
      (¬s.epoch.Proper → ∀ text, decode? text ≠ some s) := by
  refine ⟨⟨s.toJson, Json.parse?_render (integral_toJson h), writtenAs_toJson s⟩,
    fun hepoch => ?_, fun hepoch text htext => ?_⟩
  · have hdecode := decode?_encode_eq ⟨h, hepoch⟩
    refine ⟨hdecode, fun fuel p => ?_⟩
    rw [hdecode, Option.map_some]
  · exact hepoch ((proper_iff_exists_decode? s).mpr ⟨text, htext⟩).epoch

/-- A scenario in a leap second of the first year, with the longest delays. -/
def farScenario : Scenario where
  epoch := { instant := ⟨-8334601228740999999999, by decide, by decide⟩, leap := true }
  timers := [{ name := "a \"tab\"\t", after := -9223372036854775808 },
    { name := "é", after := 9223372036854775807, period := some 9223372036854775807 }]
  advances := [0, 18446744073709551615]

theorem decode_encode_farScenario :
    farScenario.Bounded ∧ farScenario.epoch.Proper ∧
      decode? farScenario.encode = some farScenario := by
  have htimers : ∀ t ∈ farScenario.timers, t.Proper := by
    refine List.forall_mem_cons.mpr ⟨⟨by decide, nofun⟩, List.forall_mem_singleton.mpr ?_⟩
    refine ⟨by decide, ?_⟩
    rintro _ ⟨⟩
    decide
  have hbounded : farScenario.Bounded := ⟨htimers, by decide⟩
  have hepoch : farScenario.epoch.Proper := by unfold Reading.Proper; decide
  exact ⟨hbounded, hepoch, ((decode_encode farScenario hbounded).2.1 hepoch).1⟩

example : String.ofList (farScenario.epoch.rfc3339 .fewest) = "-262143-01-01T00:00:60.000000001Z" := by
  decide +kernel

/-- The epoch is half a second into a leap second behind second 58, just before midnight. -/
def offBeat : Scenario where
  epoch := { instant := ⟨1235087998500000000, by decide, by decide⟩, leap := true }
  timers := [{ name := "t", after := 3000 }]
  advances := [3000]

/-- The same half a second later within second 59, which is what is written. -/
def onBeat : Scenario :=
  { offBeat with epoch := { instant := ⟨1235087999500000000, by decide, by decide⟩ } }

/-- A leap second within a minute is written as the second after it. Across midnight it is not
counted, so what is read is replayed with other delays. -/
theorem decode_encode_offBeat :
    offBeat.Bounded ∧ decode? offBeat.encode = some onBeat ∧ onBeat ≠ offBeat ∧
      (Replay.run 5 1 offBeat ⟨.start default, none, [], []⟩).1 = .ok (.ok [⟨2000, "t"⟩]) ∧
      (Replay.run 5 1 onBeat ⟨.start default, none, [], []⟩).1 = .ok (.ok [⟨3000, "t"⟩]) := by
  have hbounded : offBeat.Bounded :=
    ⟨List.forall_mem_singleton.mpr ⟨by decide, nofun⟩, by decide⟩
  have hproper : onBeat.Proper := ⟨⟨hbounded.1, hbounded.2⟩, by unfold Reading.Proper; decide⟩
  have htext : offBeat.epoch.rfc3339 .fewest = onBeat.epoch.rfc3339 .fewest := by decide +kernel
  have hencode : offBeat.encode = onBeat.encode := by
    rw [encode, encode, toJson, toJson, htext]
    rfl
  refine ⟨hbounded, ?_, by decide, by cbv, by cbv⟩
  rw [hencode]
  exact decode?_encode_eq hproper

end Scenario

end VirtualClock

import VirtualClock.Proofs.Process.Replaced
import VirtualClock.Proofs.Script.Run
import VirtualClock.Proofs.Timeline.Overdue

/-! The thread of a process is a caller of each of its timelines. What it does to one of them is a
sequence of turns: an advance looks and at once hands over what it finds, and it settles at once
when it finds nothing. So nothing comes in between, and time never passes over an event. -/

namespace VirtualClock

namespace Process

variable {κ : Type} {c c' : Process κ} {x : Action κ} {i : Nat} {w : Crowd κ}

/-- The advances of the frozen timeline `i` that the thread is in, innermost first. -/
def underway (c : Process κ) (i : Nat) : List (Underway κ) :=
  c.advances.filterMap fun (q, a) => if q = .frozen i then some ⟨a.limit, .looking⟩ else none

/-- `w` shares the timeline `i` of the process. An advance that was left by a panic may still look
for events there, but it never gets a turn. -/
structure Joins (c : Process κ) (i : Nat) (w : Crowd κ) : Prop where
  timeline_eq : w.timeline = c.clocks.timeline (.frozen i)
  underway_le : (c.underway i).reverse.Sublist w.advances
  looking : ∀ a ∈ w.advances, a.phase = .looking

/-- The turns `ys` take the callers along when the process goes on to `c'`. Nobody arms while an
advance is about to settle. -/
structure Follows (c' : Process κ) (i : Nat) (w : Crowd κ) (ys : List (Turn κ)) : Prop where
  joins : c'.Joins i (w.turns ys)
  hurried_eq : w.hurried ys = []

theorem underway_cons (clocks : Clocks κ) (a : Advancing) (rest : List (Source × Advancing)) :
    underway ⟨clocks, (.frozen i, a) :: rest⟩ i =
      ⟨a.limit, .looking⟩ :: underway ⟨clocks, rest⟩ i := by
  simp [underway]

theorem underway_cons_ne (clocks : Clocks κ) {q : Source} (hq : q ≠ .frozen i) (a : Advancing)
    (rest : List (Source × Advancing)) :
    underway ⟨clocks, (q, a) :: rest⟩ i = underway ⟨clocks, rest⟩ i := by
  simp [underway, hq]

/-- A process whose timeline `i` stays as it is, and that is in no more advances of it. -/
theorem Joins.same (h : c.Joins i w)
    (ht : c'.clocks.timeline (.frozen i) = c.clocks.timeline (.frozen i))
    (ha : (c'.underway i).Sublist (c.underway i)) : c'.Follows i w [] :=
  ⟨⟨h.timeline_eq.trans ht.symm, ha.reverse.trans h.underway_le, h.looking⟩, rfl⟩

theorem Joins.use (h : c.Joins i w) {u : Use κ} (hu : (c.clocks.timeline (.frozen i)).Allows u) :
    (c.update (.frozen i) ((c.clocks.timeline (.frozen i)).use u)).Follows i w [.use u] := by
  rw [← h.timeline_eq] at hu ⊢
  have hturns : w.turns [.use u] = { w with timeline := w.timeline.use u } := Crowd.turn_use hu
  refine ⟨?_, ?_⟩
  · rw [hturns]
    exact ⟨(Clocks.timeline_setTimeline _ (.frozen i) _).symm, h.underway_le, h.looking⟩
  · have hpasses (at_ : Instant) : w.advances.any (·.passes at_) = false := by
      refine List.any_eq_false.mpr fun a ha => ?_
      simp [Underway.passes, h.looking a ha]
    simp [Crowd.hurried, Crowd.hurried?, hpasses]

theorem Joins.discard (h : c.Joins i w)
    (ht : c'.clocks.timeline (.frozen i) = (c.clocks.timeline (.frozen i)).discard.2)
    (ha : c'.underway i = c.underway i) : c'.Follows i w [.discard] := by
  refine ⟨⟨?_, ?_, h.looking⟩, rfl⟩
  · show w.timeline.discard.2 = _
    rw [ht, h.timeline_eq]
  · rw [ha]
    exact h.underway_le

theorem Joins.advance (h : c.Joins i w) (d : Delay) :
    Follows { c with
      advances := (.frozen i, ⟨(c.clocks.timeline (.frozen i)).now, d⟩) :: c.advances } i w
      [.advance d] := by
  refine ⟨⟨h.timeline_eq, ?_, fun a ha => ?_⟩, rfl⟩
  · rw [underway_cons, List.reverse_cons]
    show List.Sublist _ (w.advances ++ [⟨w.timeline.limit d, .looking⟩])
    rw [h.timeline_eq]
    exact h.underway_le.append (.refl _)
  · obtain ha | ha := List.mem_append.mp ha
    · exact h.looking a ha
    · rw [List.mem_singleton.mp ha]

/-- The innermost advance has a place, and the others have theirs without it. -/
theorem Joins.place {a : Advancing} {rest : List (Source × Advancing)} (h : c.Joins i w)
    (hc : c.advances = (.frozen i, a) :: rest) :
    ∃ k, w.advances[k]? = some ⟨a.limit, .looking⟩ ∧
      (underway ⟨c.clocks, rest⟩ i).reverse.Sublist (w.advances.eraseIdx k) := by
  have hle := h.underway_le
  obtain ⟨clocks, advances⟩ := c
  obtain rfl : advances = (.frozen i, a) :: rest := hc
  rw [underway_cons, List.reverse_cons, List.append_sublist_iff] at hle
  obtain ⟨before, others, hw, hbefore, hmem⟩ := hle
  obtain ⟨between, after, rfl⟩ := List.append_of_mem (List.singleton_sublist.mp hmem)
  rw [← List.append_assoc] at hw
  refine ⟨(before ++ between).length, ?_, ?_⟩
  · rw [hw, List.getElem?_append_right (Nat.le_refl _), Nat.sub_self, List.getElem?_cons_zero]
  · rw [hw, List.eraseIdx_append_of_length_le (Nat.le_refl _), Nat.sub_self,
      List.eraseIdx_cons_zero]
    exact (hbefore.trans (List.sublist_append_left _ _)).trans (List.sublist_append_left _ _)

theorem Joins.fire {a : Advancing} {rest : List (Source × Advancing)} {f : Firing (Delivery κ)}
    {t : Timeline κ} (h : c.Joins i w) (hc : c.advances = (.frozen i, a) :: rest)
    (hp : (c.clocks.timeline (.frozen i)).popDue a.limit = some (f, t)) :
    ∃ k, ((c.update (.frozen i) t).handOver (.frozen i) f).Follows i w [.look k, .deliver k] := by
  obtain ⟨k, hk, -⟩ := h.place hc
  rw [← h.timeline_eq] at hp
  have hlook : w.turn (.look k) = ⟨t, w.advances.set k ⟨a.limit, .delivering f⟩⟩ := by
    simp only [Crowd.turn, hk, hp]
  have hset : (w.advances.set k ⟨a.limit, .delivering f⟩)[k]? = some ⟨a.limit, .delivering f⟩ := by
    rw [List.getElem?_set_self (List.getElem?_eq_some_iff.mp hk).1]
  have hback : (w.advances.set k ⟨a.limit, .delivering f⟩).set k ⟨a.limit, .looking⟩ =
      w.advances := by
    obtain ⟨hlt, hget⟩ := List.getElem?_eq_some_iff.mp hk
    rw [List.set_set, ← hget, List.set_getElem_self]
  have hturns : w.turns [.look k, .deliver k] = ⟨Solo.handOver t f, w.advances⟩ := by
    rw [Crowd.turns_cons, hlook, Crowd.turns_cons, Crowd.turn, hset]
    show (⟨Solo.handOver t f, (w.advances.set k _).set k _⟩ : Crowd κ) = _
    rw [hback]
  refine ⟨k, ⟨?_, ?_, ?_⟩, rfl⟩
  · rw [hturns, timeline_handOver, update, Clocks.timeline_setTimeline]
  · rw [hturns, underway, advances_handOver]
    exact h.underway_le
  · rw [hturns]
    exact h.looking

theorem Joins.finish {a : Advancing} {rest : List (Source × Advancing)} (h : c.Joins i w)
    (hc : c.advances = (.frozen i, a) :: rest)
    (hp : (c.clocks.timeline (.frozen i)).popDue a.limit = none) :
    ∃ k, Follows ⟨c.clocks.setTimeline (.frozen i)
      ((c.clocks.timeline (.frozen i)).settle a.limit), rest⟩ i w [.look k, .settle k] := by
  obtain ⟨k, hk, hrest⟩ := h.place hc
  rw [← h.timeline_eq] at hp ⊢
  have hlook : w.turn (.look k) = { w with advances := w.advances.set k ⟨a.limit, .settling⟩ } := by
    simp only [Crowd.turn, hk, hp]
  have hset : (w.advances.set k ⟨a.limit, .settling⟩)[k]? = some ⟨a.limit, .settling⟩ := by
    rw [List.getElem?_set_self (List.getElem?_eq_some_iff.mp hk).1]
  have hturns : w.turns [.look k, .settle k] =
      ⟨w.timeline.settle a.limit, w.advances.eraseIdx k⟩ := by
    rw [Crowd.turns_cons, hlook, Crowd.turns_cons, Crowd.turn, hset]
    show (⟨w.timeline.settle a.limit, (w.advances.set k _).eraseIdx k⟩ : Crowd κ) = _
    rw [List.eraseIdx_set_eq]
  refine ⟨k, ⟨?_, ?_, ?_⟩, rfl⟩
  · rw [hturns]
    exact (Clocks.timeline_setTimeline _ (.frozen i) _).symm
  · rw [hturns]
    exact hrest
  · rw [hturns]
    exact fun a ha => h.looking a (List.mem_of_mem_eraseIdx ha)

/-- Whatever the thread does next, the callers of a timeline that is there can follow. -/
theorem Joins.step (h : c.Joins i w) (hi : c.clocks.Knows (.frozen i))
    (hstep : c.step x = some c') : ∃ ys, c'.Follows i w ys := by
  have hother {q : Source} (hq : q ≠ .frozen i) (t : Timeline κ) :
      (c.clocks.setTimeline q t).timeline (.frozen i) = c.clocks.timeline (.frozen i) :=
    Clocks.timeline_setTimeline_ne _ hq.symm t
  cases steps_of_step hstep with
  | @use q u hq hu =>
    by_cases hqi : q = .frozen i
    · subst hqi
      exact ⟨_, h.use hu⟩
    · exact ⟨_, h.same (hother hqi _) (.refl _)⟩
  | pass m => exact ⟨_, h.same (hother (by simp) _) (.refl _)⟩
  | newTimeline at_ =>
    exact ⟨_, h.same (Clocks.timeline_newTimeline_ne _ at_ hi.ne_new) (.refl _)⟩
  | newProvider guard => exact ⟨_, h.same rfl (.refl _)⟩
  | install p at_ =>
    have hold : (c.clocks.install p at_).2.timeline (.frozen i) =
        (c.clocks.discard (c.clocks.source p)).2.timeline (.frozen i) := by
      cases at_ with
      | none => exact Clocks.timeline_unfreeze _ p _
      | some r => exact Clocks.timeline_freeze_ne _ p r hi.ne_new
    by_cases hp : c.clocks.source p = .frozen i
    · rw [hp, Clocks.timeline_discard] at hold
      exact ⟨_, h.discard hold rfl⟩
    · rw [Clocks.timeline_discard_ne _ (Ne.symm hp)] at hold
      exact ⟨_, h.same hold (.refl _)⟩
  | @advance q d hq hreal =>
    by_cases hqi : q = .frozen i
    · subst hqi
      exact ⟨_, h.advance d⟩
    · refine ⟨_, h.same rfl ?_⟩
      rw [underway_cons_ne _ hqi]
  | @fire q a rest f t hc hp =>
    by_cases hqi : q = .frozen i
    · subst hqi
      obtain ⟨k, hk⟩ := h.fire hc hp
      exact ⟨_, hk⟩
    · refine ⟨_, h.same ?_ ?_⟩
      · rw [timeline_handOver_ne _ (Ne.symm hqi)]
        exact hother hqi t
      · rw [underway, advances_handOver]
        exact .refl _
  | @finish q a rest hc hp =>
    by_cases hqi : q = .frozen i
    · subst hqi
      obtain ⟨k, hk⟩ := h.finish hc hp
      exact ⟨_, hk⟩
    · refine ⟨_, h.same (hother hqi _) ?_⟩
      rw [show c.underway i = _ from congrArg (List.filterMap _) hc]
      exact (List.sublist_cons_self _ _).filterMap _
  | leave hc =>
    refine ⟨_, h.same rfl ?_⟩
    rw [show c.underway i = _ from congrArg (List.filterMap _) hc]
    exact (List.sublist_cons_self _ _).filterMap _

/-- A timeline that is new has nothing pending, and nobody advances it. -/
theorem untouched_of_new (hs : Sane c) (hstep : c.step x = some c')
    (hi : ¬c.clocks.Knows (.frozen i)) (hi' : c'.clocks.Knows (.frozen i)) :
    ∃ at_, Untouched i at_ c' := by
  have hidle : ∀ a ∈ c.advances, a.1 ≠ .frozen i :=
    fun a ha heq => hi (heq ▸ hs.advances_known a ha)
  have hold : c'.clocks.lastTimeline ≠ c.clocks.lastTimeline :=
    fun hlast => hi ⟨hi'.1, hlast ▸ hi'.2⟩
  have hnew (hlast : c'.clocks.lastTimeline = c.clocks.lastTimeline + 1) :
      i = c.clocks.lastTimeline + 1 := by
    have hle := hi'.2
    have hlt : c.clocks.lastTimeline < i := Nat.lt_of_not_le fun hle => hi ⟨hi'.1, hle⟩
    omega
  cases steps_of_step hstep with
  | newTimeline at_ =>
    obtain rfl := hnew rfl
    exact ⟨at_, hi', Clocks.timeline_newTimeline c.clocks at_, hidle⟩
  | install p at_ =>
    cases at_ with
    | none => exact absurd (Clocks.lastTimeline_install c.clocks p none) hold
    | some r =>
      obtain rfl := hnew (Clocks.lastTimeline_install c.clocks p (some r))
      exact ⟨r, hi', Clocks.timeline_freeze c.clocks p r, hidle⟩
  | fire hc hp =>
    rw [lastTimeline_handOver] at hold
    exact absurd (Clocks.lastTimeline_setTimeline _ _ _) hold
  | newProvider guard => exact absurd rfl hold
  | advance d hq hreal => exact absurd rfl hold
  | leave hc => exact absurd rfl hold
  | _ => exact absurd (Clocks.lastTimeline_setTimeline _ _ _) hold

theorem Untouched.joins {at_ : Reading} (h : Untouched i at_ c) : c.Joins i (.start at_) where
  timeline_eq := h.fresh.symm
  underway_le := by
    have hnone : c.underway i = [] :=
      List.filterMap_eq_nil_iff.mpr fun a ha => if_neg (h.idle a ha)
    rw [hnone]
    exact .refl _
  looking a ha := by cases ha

/-- Every timeline of a process is what the turns of its callers have made of it. -/
theorem exists_follows {origin : Instant} {xs : List (Action κ)}
    (hrun : (start origin).run xs = some c) (hi : c.clocks.Knows (.frozen i)) :
    ∃ at_ ys, c.Follows i (.start at_) ys := by
  refine (run_invariant (P := fun c => ∀ i, c.clocks.Knows (.frozen i) →
    ∃ at_ ys, c.Follows i (.start at_) ys) ?_ (sane_start origin) ?_ hrun).2 i hi
  · intro c c' x _ hs h hstep i hi'
    by_cases hi : c.clocks.Knows (.frozen i)
    · obtain ⟨at_, ys, hjoins, hhurried⟩ := h i hi
      obtain ⟨zs, hjoins', hhurried'⟩ := hjoins.step hi hstep
      refine ⟨at_, ys ++ zs, ?_, ?_⟩
      · rw [Crowd.turns_append]
        exact hjoins'
      · rw [Crowd.hurried_append, hhurried, hhurried']
        rfl
    · obtain ⟨at_, hnew⟩ := untouched_of_new hs hstep hi hi'
      exact ⟨at_, [], hnew.joins, rfl⟩
  · intro i hi
    exact absurd (Nat.le_trans hi.1 hi.2) (Nat.not_succ_le_zero 0)

/-- Time never passes over an event of a thread that does one thing after the other. This holds also
while it is in advances. -/
theorem now_le_target {origin : Instant} {xs : List (Action κ)}
    (hrun : (start origin).run xs = some c) (hi : c.clocks.Knows (.frozen i))
    {e : Event (Delivery κ)} (he : e ∈ (c.clocks.timeline (.frozen i)).queue) :
    (c.clocks.timeline (.frozen i)).now ≤ e.target := by
  obtain ⟨at_, ys, hjoins, hhurried⟩ := exists_follows hrun hi
  have hahead := (Crowd.ahead_start at_).turns ys
  rw [hhurried, List.append_nil] at hahead
  rw [← hjoins.timeline_eq] at he ⊢
  exact hahead.now_le e he List.not_mem_nil

end Process

namespace Script

/-- Whatever a script does, no event of a frozen clock is overdue in the end. -/
theorem never_overdue (fuel depth : Nat) (origin : Instant) (guard : GuardMode)
    (steps : List Step) {i : Nat} {e : Event (Delivery Nat)} :
    let clocks := (run fuel depth origin guard steps).2.clocks
    clocks.Knows (.frozen i) → e ∈ (clocks.timeline (.frozen i)).queue →
      (clocks.timeline (.frozen i)).now ≤ e.target := by
  intro clocks hi he
  obtain ⟨xs, hrun⟩ := exists_run_eq fuel depth origin guard steps
  exact Process.now_le_target hrun hi he

end Script

end VirtualClock

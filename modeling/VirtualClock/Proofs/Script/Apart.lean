import VirtualClock.Proofs.Script.Beside
import VirtualClock.Proofs.Script.Crew

/-! Frozen timelines are isolated from each other: what threads do to one of them, they could as
well do in a process in which it is the only one. -/

namespace VirtualClock.Script

namespace Crew

variable {w w' : Crew} {i n p : Nat} {a q : Source} {x : Deed} {hold : Hold}

/-! ### What a step is on -/

/-- The sources that a step is on, or makes. -/
def touches (w : Crew) (i : Nat) (x : Deed) : List Source :=
  ((w.grip i x).map (·.1)).toList ++
    if (w.step i x).2.session.clocks.lastTimeline = w.session.clocks.lastTimeline then []
    else [.frozen (w.session.clocks.lastTimeline + 1)]

theorem mem_touches : a ∈ w.touches i x ↔ (∃ hold, w.grip i x = some (a, hold)) ∨
    (w.step i x).2.session.clocks.lastTimeline ≠ w.session.clocks.lastTimeline ∧
      a = .frozen (w.session.clocks.lastTimeline + 1) := by
  rw [touches, List.mem_append, Option.mem_toList, Option.map_eq_some_iff]
  refine or_congr ⟨?_, ?_⟩ ?_
  · rintro ⟨⟨q, hold⟩, hg, rfl⟩
    exact ⟨hold, hg⟩
  · rintro ⟨hold, hg⟩
    exact ⟨_, hg, rfl⟩
  · split
    · simp [*]
    · simp [*]

/-- The tasks on the source `a` in a list. -/
def inside (a : Source) (l : List (Source × Task)) : List Task :=
  (l.filter (·.1 = a)).map (·.2)

theorem inside_append (a : Source) (l l' : List (Source × Task)) :
    inside a (l ++ l') = inside a l ++ inside a l' := by
  simp [inside]

theorem inside_cons_self (a : Source) (u : Task) (l : List (Source × Task)) :
    inside a ((a, u) :: l) = u :: inside a l := by
  simp [inside]

theorem inside_map_self (a : Source) (us : List Task) :
    inside a (us.map (a, ·)) = us := by
  induction us with
  | nil => rfl
  | cons u us ih => rw [List.map_cons, inside_cons_self, ih]

theorem inside_map_ne (hq : q ≠ a) (us : List Task) :
    inside a (us.map (q, ·)) = [] := by
  simp [inside, hq]

/-- A provider that a step takes hold of has the source of the step, and some name. -/
theorem grip_provider (h : w.grip i x = some (q, .clock (some p))) :
    w.session.clocks.source p = q ∧ ∃ clock, x.clock? = some clock ∧
      Session.lookup clock w.session.targets = some (.provider p) := by
  cases grip_eq_some.mp h with
  | @clock clock t _ _ hx ht hq hp =>
    cases t <;> cases hp
    exact ⟨hq, clock, hx, ht⟩

theorem grip_inner (hx : x = .go ∨ x = .leave) (h : w.grip i x = some (q, hold)) :
    ∃ y rest, w.tasks i = (q, y) :: rest := by
  cases grip_eq_some.mp h with
  | @task _ y rest _ hy => exact ⟨y, rest, hy⟩
  | clock hx' => obtain rfl | rfl := hx <;> cases hx'
  | handle hx' => obtain rfl | rfl := hx <;> cases hx'
  | pass hx' => obtain rfl | rfl := hx <;> cases hx'

/-- The tasks that a step takes off the list of its thread are on the source of the step. -/
theorem drop_ended (h : w.grip i x = some (q, hold)) (frozen : Bool) (t : Timeline Nat) :
    ∃ us : List Task, w.tasks i = us.map (q, ·) ++ (w.tasks i).drop (x.course frozen t hold).ended ∧
      us.length = (x.course frozen t hold).ended := by
  obtain hzero | ⟨hx, hone⟩ := Deed.ended_course frozen t x hold
  · exact ⟨[], by simp [hzero], hzero.symm⟩
  · obtain ⟨u, rest, hrest⟩ := grip_inner hx h
    exact ⟨[u], by simp [hrest, hone], hone.symm⟩

/-- A step on another source, which does not make this one either, does nothing to it. -/
theorem spared_step (ha : a ≠ .real) (hx : ∀ name guard, x ≠ .newProvider name guard)
    (h : a ∉ w.touches i x) :
    Spared a w.session (w.step i x).2.session ∧
      ∀ j, inside a ((w.step i x).2.tasks j) = inside a (w.tasks j) := by
  obtain ⟨hgrip, hmade⟩ := not_or.mp fun h' => h (mem_touches.mpr h')
  have hnew (hlast : (w.step i x).2.session.clocks.lastTimeline ≠ w.session.clocks.lastTimeline) :
      a ≠ .frozen (w.session.clocks.lastTimeline + 1) := fun heq => hmade ⟨hlast, heq⟩
  cases hg : w.grip i x with
  | none =>
    by_cases hs : ∃ name t, x = .newSource name t
    · obtain ⟨name, t, rfl⟩ := hs
      exact ⟨spared_addSource (hnew (Nat.succ_ne_self _)) name t, fun _ => rfl⟩
    · rw [step_of_grip_eq_none hg hx fun name t heq => hs ⟨name, t, heq⟩]
      exact ⟨.refl a _, fun _ => rfl⟩
  | some held =>
    obtain ⟨q, hold⟩ := held
    have hq : q ≠ a := by
      rintro rfl
      exact hgrip ⟨hold, hg⟩
    rw [step_eq hg] at hnew ⊢
    refine ⟨Effect.spared hq ha (fun p at_ he => ?_) hnew, fun j => ?_⟩
    · obtain rfl := Deed.hold_of_install he
      exact (grip_provider hg).1
    · by_cases hj : j = i
      · subst hj
        obtain ⟨us, hus, -⟩ := drop_ended hg (q != .real) (w.timeline q)
        have hold := congrArg (inside a) hus
        rw [inside_append, inside_map_ne hq] at hold
        simp only [take, Function.update_self, inside_append, inside_map_ne hq, hold]
      · simp only [take, Function.update_of_ne hj]

/-! ### Two runs -/

/-- The timeline `n` does not exist in `w` yet, and no timeline exists in `w'`. -/
structure Before (n : Nat) (w w' : Crew) : Prop where
  absent : Absent (.frozen n) w.session
  idle : ∀ i, inside (.frozen n) (w.tasks i) = []
  source_eq : ∀ p, w'.session.clocks.source p = .real
  lastTimeline_eq : w'.session.clocks.lastTimeline = 0

/-- The crew `w'` does with its first frozen timeline what `w` does with the timeline `n`: either it
does not exist yet, or both exist and are alike. -/
structure Follows (n : Nat) (w w' : Crew) : Prop where
  beside : Beside (.frozen n) (.frozen 1) w.session w'.session
  tasks_eq : ∀ i, w'.tasks i = (inside (.frozen n) (w.tasks i)).map (.frozen 1, ·)
  made : Before n w w' ∨
    n ≤ w.session.clocks.lastTimeline ∧ 1 ≤ w'.session.clocks.lastTimeline

theorem lastTimeline_apply (e : Effect) (q : Source) (s : Session) :
    s.clocks.lastTimeline ≤ (e.apply q s).clocks.lastTimeline := by
  cases e with
  | update t => exact Nat.le_of_eq (Clocks.lastTimeline_setTimeline _ q t).symm
  | keep t name k => exact Nat.le_of_eq (Clocks.lastTimeline_setTimeline _ q t).symm
  | install p at_ =>
    have hlast : ((Effect.install p at_).apply q s).clocks.lastTimeline = _ :=
      Clocks.lastTimeline_install s.clocks p at_
    rw [hlast]
    exact Nat.le_add_right _ _
  | exchange p at_ =>
    have hlast : ((Effect.exchange p at_).apply q s).clocks.lastTimeline = _ :=
      Clocks.lastTimeline_exchange s.clocks p at_
    rw [hlast]
    exact Nat.le_add_right _ _
  | _ => exact Nat.le_refl _

theorem lastTimeline_step (w : Crew) (i : Nat) (x : Deed) :
    w.session.clocks.lastTimeline ≤ (w.step i x).2.session.clocks.lastTimeline := by
  cases hg : w.grip i x with
  | some held =>
    rw [step_eq hg]
    exact lastTimeline_apply _ _ _
  | none =>
    by_cases hx : (∃ name guard, x = .newProvider name guard) ∨ ∃ name t, x = .newSource name t
    · obtain ⟨name, guard, rfl⟩ | ⟨name, t, rfl⟩ := hx
      · exact Nat.le_refl _
      · exact Nat.le_succ _
    · exact Nat.le_of_eq (by
        rw [step_of_grip_eq_none hg (fun name guard heq => hx (.inl ⟨name, guard, heq⟩))
          fun name t heq => hx (.inr ⟨name, t, heq⟩)])

/-- What concerns other timelines only is not needed. -/
theorem Follows.skip (h : Follows n w w') (hx : ∀ name guard, x ≠ .newProvider name guard)
    (hn : .frozen n ∉ w.touches i x) : Follows n (w.step i x).2 w' := by
  obtain ⟨hspared, hinside⟩ := spared_step (by simp) hx hn
  refine ⟨h.beside.spared hspared, fun j => ?_, ?_⟩
  · rw [hinside, h.tasks_eq]
  · obtain ⟨habsent, hidle, hsource, hlast⟩ | ⟨hle, hlast⟩ := h.made
    · exact .inl ⟨habsent.spared hspared, fun j => (hinside j).trans (hidle j), hsource, hlast⟩
    · exact .inr ⟨Nat.le_trans hle (lastTimeline_step w i x), hlast⟩

/-- What a step takes hold of on one timeline it takes hold of on the other. -/
theorem Follows.grip (h : Follows n w w') (hg : w.grip i x = some (.frozen n, hold)) :
    w'.grip i x = some (.frozen 1, hold) := by
  refine grip_eq_some.mpr ?_
  cases grip_eq_some.mp hg with
  | @clock clock t _ _ hx ht hq hp =>
    cases t with
    | provider p => exact .clock hx (h.beside.provider clock p ht) (h.beside.source p hq) hp
    | source q =>
      obtain rfl : q = .frozen n := hq
      exact .clock hx (h.beside.target clock ht) rfl hp
  | @handle name _ k hx hk => exact .handle hx (h.beside.handle name k hk)
  | @task _ y rest hx hy =>
    have hy' : w'.tasks i = (.frozen 1, y) :: (inside (.frozen n) rest).map (.frozen 1, ·) := by
      rw [h.tasks_eq, hy, inside_cons_self]
      rfl
    exact .task hx hy'

/-- A step on the timeline is told the same, and both timelines take the same course. -/
theorem Follows.take (h : Follows n w w') (hle : n ≤ w.session.clocks.lastTimeline)
    (hle' : 1 ≤ w'.session.clocks.lastTimeline) (hg : w.grip i x = some (.frozen n, hold)) :
    (w'.step i x).1 = (w.step i x).1 ∧ Follows n (w.step i x).2 (w'.step i x).2 := by
  have hg' := h.grip hg
  have htimeline : w'.timeline (.frozen 1) = w.timeline (.frozen n) := h.beside.timeline_eq
  have hlast := Nat.le_trans hle (lastTimeline_step w i x)
  have hlast' := Nat.le_trans hle' (lastTimeline_step w' i x)
  rw [step_eq hg] at hlast ⊢
  rw [step_eq hg', htimeline] at hlast' ⊢
  refine ⟨rfl, h.beside.apply (fun p at_ he => ?_) hle hle', fun j => ?_, .inr ⟨hlast, hlast'⟩⟩
  · obtain rfl := Deed.hold_of_install he
    exact (grip_provider hg).1
  · by_cases hj : j = i
    · subst hj
      obtain ⟨us, hus, hlen⟩ := drop_ended hg (Source.frozen n != .real) (w.timeline (.frozen n))
      have hinside := congrArg (inside (.frozen n)) hus
      rw [inside_append, inside_map_self] at hinside
      simp only [Crew.take, Function.update_self, inside_append, inside_map_self, h.tasks_eq,
        hinside, List.map_append]
      have hb : (Source.frozen 1 != .real) = (Source.frozen n != .real) := rfl
      rw [hb, ← hlen, List.drop_left' (by simp)]
    · simp only [Crew.take, Function.update_of_ne hj, h.tasks_eq]

theorem makes_of_lastTimeline_ne {e : Effect} {s : Session}
    (h : (e.apply q s).clocks.lastTimeline ≠ s.clocks.lastTimeline) :
    ∃ p r, e = .install p (some r) ∨ e = .exchange p (some r) := by
  cases e with
  | update t => exact absurd (Clocks.lastTimeline_setTimeline _ q t) h
  | keep t name k => exact absurd (Clocks.lastTimeline_setTimeline _ q t) h
  | install p at_ =>
    cases at_ with
    | some r => exact ⟨p, r, .inl rfl⟩
    | none => exact absurd (Clocks.lastTimeline_install _ p none) h
  | exchange p at_ =>
    cases at_ with
    | some r => exact ⟨p, r, .inr rfl⟩
    | none => exact absurd (Clocks.lastTimeline_exchange _ p none) h
  | _ => exact absurd rfl h

/-- A timeline that does not exist yet is not what a step is on. -/
theorem Before.ne_of_grip (h : Before n w w') (hg : w.grip i x = some (q, hold)) :
    q ≠ .frozen n := by
  rintro rfl
  cases grip_eq_some.mp hg with
  | @clock clock t _ _ _ ht hq =>
    cases t with
    | provider p => exact h.absent.source p hq
    | source q =>
      obtain rfl : q = .frozen n := hq
      exact h.absent.target clock ht
  | @handle name _ k _ hk => exact h.absent.handle name k hk
  | task _ hy =>
    have hempty := h.idle i
    rw [hy, inside_cons_self] at hempty
    cases hempty

/-- A provider that a step takes hold of is known to both crews. -/
theorem Follows.grip_provider (h : Follows n w w') (hg : w.grip i x = some (q, .clock (some p))) :
    w'.grip i x = some (w'.session.clocks.source p, .clock (some p)) := by
  obtain ⟨-, clock, hx, ht⟩ := Crew.grip_provider hg
  exact grip_eq_some.mpr (.clock hx (h.beside.provider clock p ht) rfl rfl)

/-- A freeze that makes the timeline makes it in both states. -/
theorem Follows.freeze {clock : String} {r : Instant} (h : Follows n w w')
    (hbefore : Before n w w') (hn : n = w.session.clocks.lastTimeline + 1)
    (hg : w.grip i (.onClock clock (.freeze (some r))) = some (q, .clock (some p))) :
    (w'.step i (.onClock clock (.freeze (some r)))).1 =
        (w.step i (.onClock clock (.freeze (some r)))).1 ∧
      Follows n (w.step i (.onClock clock (.freeze (some r)))).2
        (w'.step i (.onClock clock (.freeze (some r)))).2 := by
  have hcourse (frozen : Bool) (t : Timeline Nat) :
      Deed.course frozen t (.onClock clock (.freeze (some r))) (.clock (some p)) =
        .planned (Plan.answer .done (.install p (some r.reading))) := rfl
  have hlast (c : Clocks Nat) : c.lastTimeline + 1 = (c.freeze p r.reading).2.lastTimeline :=
    (Clocks.lastTimeline_install c p (some r.reading)).symm
  have hone : 1 = w'.session.clocks.lastTimeline + 1 := by rw [hbefore.lastTimeline_eq]
  rw [step_eq hg, step_eq (h.grip_provider hg), hcourse, hcourse, take_planned, take_planned]
  exact ⟨rfl, h.beside.freeze hbefore.absent hn hone p r.reading, h.tasks_eq,
    .inr ⟨Nat.le_of_eq (hn.trans (hlast _)), Nat.le_of_eq (hone.trans (hlast _))⟩⟩

/-- An exchange that makes the timeline makes it in both states. What is to be discarded then is not
the timeline, and in `w'` there is nothing to discard. -/
theorem Follows.exchange {clock : String} {r : Reading} (h : Follows n w w')
    (hbefore : Before n w w') (hn : n = w.session.clocks.lastTimeline + 1)
    (hg : w.grip i (.exchange clock (some r)) = some (q, .clock (some p))) :
    (w'.step i (.exchange clock (some r))).1 = (w.step i (.exchange clock (some r))).1 ∧
      Follows n (w.step i (.exchange clock (some r))).2
        (w'.step i (.exchange clock (some r))).2 := by
  have hlast (c : Clocks Nat) : c.lastTimeline + 1 = (c.exchange p (some r)).lastTimeline :=
    (Clocks.lastTimeline_exchange c p (some r)).symm
  have hone : 1 = w'.session.clocks.lastTimeline + 1 := by rw [hbefore.lastTimeline_eq]
  rw [step_eq hg, step_eq (h.grip_provider hg), hbefore.source_eq p]
  refine ⟨rfl, h.beside.exchange_new hbefore.absent hn hone p r, fun j => ?_,
    .inr ⟨Nat.le_of_eq (hn.trans (hlast _)), Nat.le_of_eq (hone.trans (hlast _))⟩⟩
  by_cases hj : j = i
  · subst hj
    have hq := hbefore.ne_of_grip hg
    simp only [Crew.take, Deed.course, Function.update_self, inside_append, inside_map_ne hq]
    exact h.tasks_eq j
  · simp only [Crew.take, Function.update_of_ne hj, h.tasks_eq]

/-- The step that makes the timeline makes it in both states. -/
theorem Follows.make (h : Follows n w w') (hbefore : Before n w w')
    (hx : ∀ name guard, x ≠ .newProvider name guard)
    (hne : (w.step i x).2.session.clocks.lastTimeline ≠ w.session.clocks.lastTimeline)
    (hn : n = w.session.clocks.lastTimeline + 1) :
    (w'.step i x).1 = (w.step i x).1 ∧ Follows n (w.step i x).2 (w'.step i x).2 := by
  cases hg : w.grip i x with
  | none =>
    by_cases hs : ∃ name t, x = .newSource name t
    · obtain ⟨name, t, rfl⟩ := hs
      have hone : 1 = w'.session.clocks.lastTimeline + 1 := by rw [hbefore.lastTimeline_eq]
      exact ⟨rfl, h.beside.addSource hn hone name t, h.tasks_eq,
        .inr ⟨Nat.le_of_eq hn, Nat.le_of_eq hone⟩⟩
    · rw [step_of_grip_eq_none hg hx fun name t heq => hs ⟨name, t, heq⟩] at hne
      exact absurd rfl hne
  | some held =>
    obtain ⟨q, hold⟩ := held
    rw [step_eq hg] at hne
    have hdoes := does_course (q != .real) (w.timeline q) x hold
    obtain ⟨p, r, he | he⟩ := makes_of_lastTimeline_ne hne
    · rw [he] at hdoes
      cases hdoes with
      | freeze hx hp =>
        subst hx hp
        exact h.freeze hbefore hn hg
    · rw [he] at hdoes
      cases hdoes with
      | exchange hx hp =>
        subst hx hp
        exact h.exchange hbefore hn hg

/-- Providers are made in both states. -/
theorem Follows.newProvider (h : Follows n w w') (i : Nat) (name : String) (guard : GuardMode) :
    Follows n (w.step i (.newProvider name guard)).2 (w'.step i (.newProvider name guard)).2 := by
  refine ⟨h.beside.addProvider (by simp) name guard, h.tasks_eq, ?_⟩
  obtain ⟨habsent, hidle, hsource, hlast⟩ | hmade := h.made
  · refine .inl ⟨habsent.addProvider (by simp) name guard, hidle, fun p => ?_, hlast⟩
    have hs : (w'.session.addProvider name guard).clocks.source p = _ :=
      Clocks.source_newProvider ..
    refine hs.trans ?_
    split
    · rfl
    · exact hsource p
  · exact .inr hmade

/-! ### Runs -/

/-- Whether a step concerns a source: it is on it or makes it, or it makes a provider, on which any
source may come to be installed. -/
def concerns (w : Crew) (a : Source) (i : Nat) : Deed → Bool
  | .newProvider .. => true
  | x => a ∈ w.touches i x

/-- What threads do and are told. -/
def history (w : Crew) : List (Nat × Deed) → List (Nat × Deed × Reply)
  | [] => []
  | (i, x) :: xs => (i, x, (w.step i x).1) :: (w.step i x).2.history xs

/-- The part of the history that concerns a source. -/
def historyOf (a : Source) (w : Crew) : List (Nat × Deed) → List (Nat × Deed × Reply)
  | [] => []
  | (i, x) :: xs =>
    let rest := (w.step i x).2.historyOf a xs
    if w.concerns a i x then (i, x, (w.step i x).1) :: rest else rest

/-- The steps of a run that concern a source. -/
def stepsOf (a : Source) (w : Crew) (xs : List (Nat × Deed)) : List (Nat × Deed) :=
  (w.historyOf a xs).map fun (i, x, _) => (i, x)

/-- A step that concerns the timeline is told the same in both states. -/
theorem Follows.step (h : Follows n w w') (hx : w.concerns (.frozen n) i x = true) :
    (w'.step i x).1 = (w.step i x).1 ∧ Follows n (w.step i x).2 (w'.step i x).2 := by
  by_cases hp : ∃ name guard, x = .newProvider name guard
  · obtain ⟨name, guard, rfl⟩ := hp
    exact ⟨rfl, h.newProvider i name guard⟩
  · have hne (name : String) (guard : GuardMode) : x ≠ .newProvider name guard :=
      fun heq => hp ⟨name, guard, heq⟩
    have htouches : .frozen n ∈ w.touches i x := by
      cases x with
      | newProvider name guard => exact absurd rfl (hne name guard)
      | _ => exact of_decide_eq_true hx
    obtain ⟨hold, hg⟩ | ⟨hlast, hn⟩ := mem_touches.mp htouches
    · obtain hbefore | ⟨hle, hle'⟩ := h.made
      · exact absurd rfl (hbefore.ne_of_grip hg)
      · exact h.take hle hle' hg
    · obtain rfl : n = w.session.clocks.lastTimeline + 1 := Source.frozen.inj hn
      obtain hbefore | ⟨hle, -⟩ := h.made
      · exact h.make hbefore hne hlast rfl
      · exact absurd hle (Nat.not_succ_le_self _)

/-- By induction on the run: the steps that concern the timeline do to it alone what they do among
all others. -/
theorem Follows.run (h : Follows n w w') (xs : List (Nat × Deed)) :
    w'.history (w.stepsOf (.frozen n) xs) = w.historyOf (.frozen n) xs ∧
      Follows n (w.run xs) (w'.run (w.stepsOf (.frozen n) xs)) := by
  induction xs generalizing w w' with
  | nil => exact ⟨rfl, h⟩
  | cons x xs ih =>
    obtain ⟨i, x⟩ := x
    by_cases hx : w.concerns (.frozen n) i x = true
    · obtain ⟨hreply, hnext⟩ := h.step hx
      obtain ⟨hhistory, hfollows⟩ := ih hnext
      have hof : w.historyOf (.frozen n) ((i, x) :: xs) =
          (i, x, (w.step i x).1) :: (w.step i x).2.historyOf (.frozen n) xs := if_pos hx
      have hsteps : w.stepsOf (.frozen n) ((i, x) :: xs) =
          (i, x) :: (w.step i x).2.stepsOf (.frozen n) xs := by
        rw [stepsOf, hof]
        rfl
      rw [hsteps, hof]
      refine ⟨?_, hfollows⟩
      rw [history, hreply, hhistory]
    · have hof : w.historyOf (.frozen n) ((i, x) :: xs) =
          (w.step i x).2.historyOf (.frozen n) xs := if_neg hx
      have hsteps : w.stepsOf (.frozen n) ((i, x) :: xs) =
          (w.step i x).2.stepsOf (.frozen n) xs := by
        rw [stepsOf, hof]
        rfl
      rw [hsteps, hof]
      refine ih (h.skip (fun name guard heq => ?_) fun hmem => ?_)
      · subst heq
        exact hx rfl
      · cases x with
        | newProvider name guard => exact hx rfl
        | _ => exact hx (decide_eq_true hmem)

theorem source_start (origin : Instant) (guard : GuardMode) (p : Nat) :
    (start origin guard).session.clocks.source p = .real := by
  have h : (start origin guard).session.clocks =
      (((Clocks.start origin).newProvider guard).2.newProvider .locked).2 := rfl
  rw [h, Clocks.source_newProvider, Clocks.source_newProvider]
  have hempty : (Clocks.start origin : Clocks Nat).source p = .real := by
    simp only [Clocks.start, Clocks.source, Clocks.provider, Std.TreeMap.getD_emptyc]
    rfl
  rw [hempty]
  split
  · rfl
  · split <;> rfl

theorem follows_start (origin : Instant) (guard : GuardMode) (n : Nat) :
    Follows n (start origin guard) (start origin guard) := by
  have hsource (m p : Nat) : (start origin guard).session.clocks.source p ≠ .frozen m := by
    rw [source_start]
    exact Source.noConfusion
  have htarget (m : Nat) (name : String) :
      Session.lookup name (start origin guard).session.targets ≠ some (.source (.frozen m)) := by
    intro h
    obtain ⟨name', hmem⟩ := Session.mem_of_lookup h
    simp [start, Session.start] at hmem
  have hempty (m : Nat) : (start origin guard).session.clocks.timeline (.frozen m) = default := by
    simp [start, Session.start, Clocks.start, Clocks.newProvider, Clocks.timeline]
  refine ⟨⟨?_, fun p hp => absurd hp (hsource n p), fun _ _ h => h,
    fun name hn => absurd hn (htarget n name), fun name k hn => ?_, rfl⟩, fun i => rfl, ?_⟩
  · rw [hempty, hempty]
  · cases hn
  · refine .inl ⟨⟨hsource n, htarget n, fun name k hn => ?_⟩, fun i => rfl,
      source_start origin guard, rfl⟩
    cases hn

/-! ### Handles -/

theorem handles_of_grip_eq_none (h : w.grip i x = none) :
    (w.step i x).2.session.handles = w.session.handles := by
  cases x with
  | newProvider name guard | newSource name t => rfl
  | _ => rw [step_of_grip_eq_none h (fun _ _ => Deed.noConfusion) fun _ _ => Deed.noConfusion]

/-- What a step keeps under a name is of the source that the step is on. -/
theorem lookup_step_of_grip (h : w.grip i x = some (q, hold)) {name : String} {y : Handle}
    (hy : Session.lookup name (w.step i x).2.session.handles = some y) :
    Session.lookup name w.session.handles = some y ∨ ∃ k : Kind, y = k.of q := by
  rw [step_eq h] at hy
  have hdoes := does_course (q != .real) (w.timeline q) x hold
  simp only [Crew.take] at hy
  generalize (x.course (q != .real) (w.timeline q) hold).effect = e at hdoes hy
  cases hdoes with
  | keep hx t k =>
    simp only [Effect.apply, Session.keep, Session.lookup_cons_filter] at hy
    split at hy
    · cases hy
      exact .inr ⟨k, rfl⟩
    · exact .inl hy
  | forget hx =>
    simp only [Effect.apply, Session.lookup_filter] at hy
    split at hy
    · cases hy
    · exact .inl hy
  | _ => exact .inl hy

/-- A name stands for the same handle until a step uses it for another, or drops it. -/
theorem lookup_step {name : String} (hx : x.name? ≠ some name) :
    Session.lookup name (w.step i x).2.session.handles =
      Session.lookup name w.session.handles := by
  cases hg : w.grip i x with
  | none => rw [handles_of_grip_eq_none hg]
  | some held =>
    obtain ⟨q, hold⟩ := held
    rw [step_eq hg]
    have hdoes := does_course (q != .real) (w.timeline q) x hold
    simp only [Crew.take]
    generalize (x.course (q != .real) (w.timeline q) hold).effect = e at hdoes ⊢
    cases hdoes with
    | keep hx' t k =>
      have hne : ¬name = _ := fun heq => hx (heq ▸ hx')
      simp only [Effect.apply, Session.keep, Session.lookup_cons_filter, if_neg hne]
      rfl
    | forget hx' =>
      have hne : ¬name = _ := fun heq => hx (heq ▸ hx')
      simp only [Effect.apply, Session.lookup_filter, if_neg hne]
    | _ => rfl

theorem lookup_run {name : String} {xs : List (Nat × Deed)}
    (hxs : ∀ x ∈ xs, x.2.name? ≠ some name) :
    Session.lookup name (w.run xs).session.handles = Session.lookup name w.session.handles := by
  induction xs generalizing w with
  | nil => rfl
  | cons x xs ih =>
    refine (ih fun y hy => hxs y (List.mem_cons_of_mem x hy)).trans ?_
    exact lookup_step (hxs x List.mem_cons_self)

/-- A command on a handle makes no timeline, and is on the source of the handle only. -/
theorem touches_onHandle {k : Kind} {c : Command Step}
    (h : w.grip i (.onHandle c) = some (q, .handle k)) : w.touches i (.onHandle c) = [q] := by
  have hlast : (w.step i (.onHandle c)).2.session.clocks.lastTimeline =
      w.session.clocks.lastTimeline := by
    by_contra hne
    rw [step_eq h] at hne
    have hdoes := does_course (q != .real) (w.timeline q) (.onHandle c) (.handle k)
    obtain ⟨p, r, he | he⟩ := makes_of_lastTimeline_ne hne
    · rw [he] at hdoes
      cases hdoes with
      | freeze hx hp => cases hx
    · rw [he] at hdoes
      cases hdoes with
      | exchange hx hp => cases hx
  rw [touches, h, if_pos hlast]
  rfl

/-! ### Isolation -/

/-- The frozen timeline `n` of the run `xs` of the crew `w` is isolated. If only the steps that
concern it are taken from `w`, it is the first timeline that is made, and is known as `1`. -/
structure Isolated (n : Nat) (w : Crew) (xs : List (Nat × Deed)) : Prop where
  /-- Alone, the steps that concern the timeline are told the same as among all others: its time,
  what is pending, ids, what becomes of handles, what is received, and what fires in which order. -/
  history_eq : w.history (w.stepsOf (.frozen n) xs) = w.historyOf (.frozen n) xs
  /-- The timeline ends up in the same state. -/
  timeline_eq :
    (w.run (w.stepsOf (.frozen n) xs)).timeline (.frozen 1) = (w.run xs).timeline (.frozen n)
  /-- A step leaves alone every other timeline that it does not make. -/
  spares : ∀ i x, .frozen n ∉ (w.run xs).touches i x →
    ((w.run xs).step i x).2.timeline (.frozen n) = (w.run xs).timeline (.frozen n)
  /-- The handles that are made by a step on the timeline are of the timeline. -/
  makes : ∀ i x hold, (w.run xs).grip i x = some (.frozen n, hold) → ∀ name y,
    Session.lookup name ((w.run xs).step i x).2.session.handles = some y →
      Session.lookup name (w.run xs).session.handles = some y ∨ ∃ k : Kind, y = k.of (.frozen n)
  /-- A handle of the timeline stays one while its name is used for nothing else, whatever is frozen
  or unfrozen meanwhile: its commands are told what the timeline tells, and act on nothing else. -/
  stays : ∀ name k, Session.lookup name (w.run xs).session.handles = some (Kind.of (.frozen n) k) →
    ∀ ys : List (Nat × Deed), (∀ y ∈ ys, y.2.name? ≠ some name) →
      ∀ i c, c.handle? = some name →
        let v := (w.run xs).run ys
        v.step i (.onHandle c) = v.take i (.frozen n)
          (Deed.course true (v.timeline (.frozen n)) (.onHandle c) (.handle k)) ∧
        v.touches i (.onHandle c) = [.frozen n]

theorem timeline_step_ne (h : .frozen n ∉ w.touches i x) :
    (w.step i x).2.timeline (.frozen n) = w.timeline (.frozen n) := by
  by_cases hx : ∃ name guard, x = .newProvider name guard
  · obtain ⟨name, guard, rfl⟩ := hx
    rfl
  · exact (spared_step (by simp) (fun name guard heq => hx ⟨name, guard, heq⟩) h).1.timeline_eq

/-- Every frozen timeline of every run is isolated. -/
theorem isolated (origin : Instant) (guard : GuardMode) (xs : List (Nat × Deed)) (n : Nat) :
    Isolated n (start origin guard) xs := by
  obtain ⟨hhistory, hfollows⟩ := (follows_start origin guard n).run xs
  refine ⟨hhistory, hfollows.beside.timeline_eq, fun i x => timeline_step_ne,
    fun i x hold h name y => lookup_step_of_grip h, fun name k hk ys hys i c hc => ?_⟩
  have hlookup := (lookup_run hys).trans hk
  have hgrip : (((start origin guard).run xs).run ys).grip i (.onHandle c) =
      some (.frozen n, .handle k) := grip_eq_some.mpr (.handle hc hlookup)
  exact ⟨step_eq hgrip, touches_onHandle hgrip⟩

/-- What concerns the first timeline: not what is done to the global clock meanwhile, but that its
provider is frozen again, and a handle of it after that. -/
example :
    let t : Instant := ⟨0, by decide, by decide⟩
    let xs : List (Nat × Deed) := [(0, .onClock "main" (.freeze (some t))),
      (1, .onClock "global" (.freeze (some t))), (0, .onClock "main" (.timer "alarm" (some ⟨5⟩))),
      (1, .onClock "global" .unfreeze), (2, .onClock "main" (.freeze (some t))),
      (0, .onHandle (.stop "alarm"))]
    ((start t .locked).stepsOf (.frozen 1) xs).map (·.1) = [0, 0, 2, 0] := by
  cbv

end Crew

end VirtualClock.Script

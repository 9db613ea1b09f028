import VirtualClock.Proofs.Clocks
import VirtualClock.Proofs.Timeline.Uses

/-! A process with one thread and any number of clocks. The thread may be in several advances at
once, of different timelines, and a callback in the innermost of them may do whatever the thread may
do outside: use timers, freeze and unfreeze providers, and begin an advance of its own. -/

namespace VirtualClock

namespace Clocks

variable {κ : Type}

/-- Whether there is such a source. -/
def Knows (c : Clocks κ) : Source → Prop
  | .real => True
  | .frozen i => 1 ≤ i ∧ i ≤ c.lastTimeline

instance (c : Clocks κ) : (s : Source) → Decidable (c.Knows s)
  | .real => inferInstanceAs (Decidable True)
  | .frozen i => inferInstanceAs (Decidable (1 ≤ i ∧ i ≤ c.lastTimeline))

/-- Freezes a provider at a reading, or unfreezes it. -/
def install (c : Clocks κ) (p : Nat) : Option Reading → List LogEvent × Clocks κ
  | some r => c.freeze p r
  | none => c.unfreeze p

theorem lastTimeline_setTimeline (c : Clocks κ) (s : Source) (t : Timeline κ) :
    (c.setTimeline s t).lastTimeline = c.lastTimeline := by
  cases s <;> rfl

theorem lastTimeline_install (c : Clocks κ) (p : Nat) (at_ : Option Reading) :
    (c.install p at_).2.lastTimeline = c.lastTimeline + at_.toList.length := by
  cases at_ with
  | none => exact lastTimeline_discard _ _
  | some r => exact lastTimeline_discard _ _

theorem lastProvider_install (c : Clocks κ) (p : Nat) (at_ : Option Reading) :
    (c.install p at_).2.lastProvider = c.lastProvider := by
  have hdiscard (c : Clocks κ) (s : Source) : (c.discard s).2.lastProvider = c.lastProvider := by
    cases s <;> rfl
  cases at_ <;> exact hdiscard _ _

/-- To freeze or unfreeze is to exchange the source and then to discard the one that was
installed. -/
theorem install_eq (c : Clocks κ) (p : Nat) (at_ : Option Reading) :
    (c.install p at_).2 = ((c.exchange p at_).discard (c.source p)).2 := by
  cases at_ <;> rfl

theorem source_install_ne (c : Clocks κ) {p p' : Nat} (h : p' ≠ p) (at_ : Option Reading) :
    (c.install p at_).2.source p' = c.source p' := by
  cases at_ with
  | none => exact source_unfreeze_ne c h
  | some r => exact source_freeze_ne c h r

theorem Knows.ne_new {c : Clocks κ} {s : Source} (h : c.Knows s) :
    s ≠ .frozen (c.lastTimeline + 1) := by
  rintro rfl
  exact absurd h.2 (Nat.not_succ_le_self _)

/-- Sources and ids are only added. -/
structure Grew (c c' : Clocks κ) : Prop where
  lastTimeline_le : c.lastTimeline ≤ c'.lastTimeline
  lastId_le : ∀ s, c.Knows s → (c.timeline s).queue.lastId ≤ (c'.timeline s).queue.lastId

theorem Grew.knows {c c' : Clocks κ} (h : Grew c c') {s : Source} (hs : c.Knows s) :
    c'.Knows s := by
  cases s with
  | real => trivial
  | frozen i => exact ⟨hs.1, Nat.le_trans hs.2 h.lastTimeline_le⟩

theorem Grew.refl (c : Clocks κ) : Grew c c := ⟨Nat.le_refl _, fun _ _ => Nat.le_refl _⟩

theorem Grew.trans {c c' c'' : Clocks κ} (h : Grew c c') (h' : Grew c' c'') : Grew c c'' :=
  ⟨Nat.le_trans h.lastTimeline_le h'.lastTimeline_le,
    fun s hs => Nat.le_trans (h.lastId_le s hs) (h'.lastId_le s (h.knows hs))⟩

end Clocks

/-- The clocks of a process, and the advances that its thread is in, innermost first. -/
structure Process (κ : Type) where
  clocks : Clocks κ
  advances : List (Source × Advancing) := []

namespace Process

variable {κ : Type}

/-- What the thread of a process does. -/
inductive Action (κ : Type) where
  | use (q : Source) (u : Use κ)
  /-- Real time goes on, in whatever way. -/
  | pass (m : Move κ)
  | newTimeline (at_ : Reading)
  | newProvider (guard : GuardMode)
  /-- A provider is frozen at a reading, or unfrozen. -/
  | install (p : Nat) (at_ : Option Reading)
  | advance (q : Source) (d : Delay)
  /-- The innermost advance fires an event. What its callback does follows. -/
  | fire
  /-- The innermost advance finds nothing due and returns. -/
  | finish
  /-- The innermost advance is left by a panic. -/
  | leave

/-- A process whose real time starts at `origin`. -/
def start (origin : Instant) : Process κ := { clocks := .start origin }

/-- The process with the timeline of a source replaced. -/
def update (c : Process κ) (q : Source) (t : Timeline κ) : Process κ :=
  { c with clocks := c.clocks.setTimeline q t }

/-- The process after a firing of `q` has reached its channel, if it goes to one. -/
def handOver (c : Process κ) (q : Source) (f : Firing (Delivery κ)) : Process κ :=
  match f.deliver with
  | .channel => c.update q ((c.clocks.timeline q).send f.id f.at_)
  | .callback _ => c

/-- The process after an action, if the action is possible. -/
def step (c : Process κ) : Action κ → Option (Process κ)
  | .use q u =>
    if c.clocks.Knows q ∧ (c.clocks.timeline q).Allows u then
      some (c.update q ((c.clocks.timeline q).use u))
    else none
  | .pass m => some (c.update .real (c.clocks.real.move m))
  | .newTimeline at_ => some { c with clocks := (c.clocks.newTimeline at_).2 }
  | .newProvider guard => some { c with clocks := (c.clocks.newProvider guard).2 }
  | .install p at_ => some { c with clocks := (c.clocks.install p at_).2 }
  | .advance q d =>
    if c.clocks.Knows q ∧ q ≠ .real then
      some { c with advances := (q, ⟨(c.clocks.timeline q).now, d⟩) :: c.advances }
    else none
  | .fire =>
    match c.advances with
    | [] => none
    | (q, a) :: _ =>
      ((c.clocks.timeline q).popDue a.limit).map fun (f, t) => (c.update q t).handOver q f
  | .finish =>
    match c.advances with
    | [] => none
    | (q, a) :: rest =>
      if ((c.clocks.timeline q).popDue a.limit).isSome then none
      else some ⟨c.clocks.setTimeline q ((c.clocks.timeline q).settle a.limit), rest⟩
  | .leave =>
    match c.advances with
    | [] => none
    | _ :: rest => some { c with advances := rest }

/-- The process after some actions, if they are possible. -/
def run (c : Process κ) (xs : List (Action κ)) : Option (Process κ) := xs.foldlM step c

@[simp] theorem run_nil (c : Process κ) : c.run [] = some c := rfl

theorem run_cons (c : Process κ) (x : Action κ) (xs : List (Action κ)) :
    c.run (x :: xs) = (c.step x).bind (·.run xs) := rfl

theorem run_of_append {c c' : Process κ} {xs ys : List (Action κ)} (h : c.run xs = some c') :
    c.run (xs ++ ys) = c'.run ys := by
  rw [run, List.foldlM_append]
  exact congrArg (·.bind (·.run ys)) h

/-! ### What an action does -/

/-- The possible actions, with all that they need and all that they do. -/
inductive Steps (c : Process κ) : Action κ → Process κ → Prop where
  | use {q : Source} {u : Use κ} (hq : c.clocks.Knows q) (hu : (c.clocks.timeline q).Allows u) :
      Steps c (.use q u) (c.update q ((c.clocks.timeline q).use u))
  | pass (m : Move κ) : Steps c (.pass m) (c.update .real (c.clocks.real.move m))
  | newTimeline (at_ : Reading) :
      Steps c (.newTimeline at_) { c with clocks := (c.clocks.newTimeline at_).2 }
  | newProvider (guard : GuardMode) :
      Steps c (.newProvider guard) { c with clocks := (c.clocks.newProvider guard).2 }
  | install (p : Nat) (at_ : Option Reading) :
      Steps c (.install p at_) { c with clocks := (c.clocks.install p at_).2 }
  | advance {q : Source} (d : Delay) (hq : c.clocks.Knows q) (hreal : q ≠ .real) :
      Steps c (.advance q d)
        { c with advances := (q, ⟨(c.clocks.timeline q).now, d⟩) :: c.advances }
  | fire {q : Source} {a : Advancing} {rest : List (Source × Advancing)}
      {f : Firing (Delivery κ)} {t : Timeline κ} (hc : c.advances = (q, a) :: rest)
      (hp : (c.clocks.timeline q).popDue a.limit = some (f, t)) :
      Steps c .fire ((c.update q t).handOver q f)
  | finish {q : Source} {a : Advancing} {rest : List (Source × Advancing)}
      (hc : c.advances = (q, a) :: rest) (hp : (c.clocks.timeline q).popDue a.limit = none) :
      Steps c .finish ⟨c.clocks.setTimeline q ((c.clocks.timeline q).settle a.limit), rest⟩
  | leave {a : Source × Advancing} {rest : List (Source × Advancing)}
      (hc : c.advances = a :: rest) : Steps c .leave { c with advances := rest }

variable {c c' : Process κ} {x : Action κ}

theorem steps_of_step (h : c.step x = some c') : Steps c x c' := by
  cases x with
  | pass m => cases h; exact .pass m
  | newTimeline at_ => cases h; exact .newTimeline at_
  | newProvider guard => cases h; exact .newProvider guard
  | install p at_ => cases h; exact .install p at_
  | use q u =>
    rw [step] at h
    split at h
    · rename_i hu
      cases h
      exact .use hu.1 hu.2
    · cases h
  | advance q d =>
    rw [step] at h
    split at h
    · rename_i hq
      cases h
      exact .advance d hq.1 hq.2
    · cases h
  | fire =>
    rw [step] at h
    split at h
    · cases h
    · rename_i hc
      obtain ⟨⟨f, t⟩, hp, rfl⟩ := Option.map_eq_some_iff.mp h
      exact .fire hc hp
  | finish =>
    rw [step] at h
    split at h
    · cases h
    · rename_i hc
      split at h
      · cases h
      · rename_i hp
        cases h
        exact .finish hc (by simpa using hp)
  | leave =>
    rw [step] at h
    split at h
    · cases h
    · rename_i hc
      cases h
      exact .leave hc

/-- What becomes of the timeline of `q` in a process that takes the action `x`. -/
inductive Change (c : Process κ) (x : Action κ) (q : Source) : Timeline κ → Prop where
  | same : Change c x q (c.clocks.timeline q)
  | use {u : Use κ} (hx : x = .use q u) (hu : (c.clocks.timeline q).Allows u) :
      Change c x q ((c.clocks.timeline q).use u)
  | pass {m : Move κ} (hq : q = .real) : Change c x q ((c.clocks.timeline q).move m)
  | fresh {at_ : Reading} (hq : q = .frozen (c.clocks.lastTimeline + 1)) : Change c x q (.start at_)
  | discard {p : Nat} {at_ : Option Reading} (hx : x = .install p at_) :
      Change c x q (c.clocks.timeline q).discard.2
  | fire {a : Advancing} {rest : List (Source × Advancing)} {f : Firing (Delivery κ)}
      {t : Timeline κ} (hc : c.advances = (q, a) :: rest)
      (hp : (c.clocks.timeline q).popDue a.limit = some (f, t)) :
      Change c x q (Solo.handOver t f)
  | settle {a : Advancing} {rest : List (Source × Advancing)} (hc : c.advances = (q, a) :: rest)
      (hp : (c.clocks.timeline q).popDue a.limit = none) :
      Change c x q ((c.clocks.timeline q).settle a.limit)

theorem change_setTimeline {q q' : Source} {t : Timeline κ} (h : Change c x q t) :
    Change c x q' ((c.clocks.setTimeline q t).timeline q') := by
  by_cases hq : q' = q
  · subst hq
    rw [Clocks.timeline_setTimeline]
    exact h
  · rw [Clocks.timeline_setTimeline_ne _ hq]
    exact .same

theorem timeline_handOver (c : Process κ) (q : Source) (f : Firing (Delivery κ)) :
    (c.handOver q f).clocks.timeline q = Solo.handOver (c.clocks.timeline q) f := by
  unfold handOver Solo.handOver
  cases f.deliver with
  | channel => exact Clocks.timeline_setTimeline _ q _
  | callback k => rfl

theorem timeline_handOver_ne (c : Process κ) {q q' : Source} (h : q' ≠ q)
    (f : Firing (Delivery κ)) :
    (c.handOver q f).clocks.timeline q' = c.clocks.timeline q' := by
  unfold handOver
  cases f.deliver with
  | channel => exact Clocks.timeline_setTimeline_ne _ h _
  | callback k => rfl

theorem lastTimeline_handOver (c : Process κ) (q : Source) (f : Firing (Delivery κ)) :
    (c.handOver q f).clocks.lastTimeline = c.clocks.lastTimeline := by
  unfold handOver
  cases f.deliver with
  | channel => exact Clocks.lastTimeline_setTimeline _ q _
  | callback k => rfl

theorem source_handOver (c : Process κ) (q : Source) (f : Firing (Delivery κ)) (p : Nat) :
    (c.handOver q f).clocks.source p = c.clocks.source p := by
  unfold handOver
  cases f.deliver with
  | channel => exact Clocks.source_setTimeline _ q _ p
  | callback k => rfl

theorem advances_handOver (c : Process κ) (q : Source) (f : Firing (Delivery κ)) :
    (c.handOver q f).advances = c.advances := by
  unfold handOver
  cases f.deliver <;> rfl

theorem change_install (p : Nat) (at_ : Option Reading) (q : Source) :
    Change c (.install p at_) q ((c.clocks.install p at_).2.timeline q) := by
  -- Only a freeze makes a timeline, and its number was not used before.
  by_cases hnew : at_.isSome ∧ q = .frozen (c.clocks.lastTimeline + 1)
  · obtain ⟨hsome, rfl⟩ := hnew
    obtain ⟨r, rfl⟩ := Option.isSome_iff_exists.mp hsome
    rw [Clocks.install, Clocks.timeline_freeze]
    exact .fresh rfl
  · have hold : (c.clocks.install p at_).2.timeline q =
        (c.clocks.discard (c.clocks.source p)).2.timeline q := by
      cases at_ with
      | none => exact Clocks.timeline_unfreeze _ p q
      | some r => exact Clocks.timeline_freeze_ne _ p r fun hq => hnew ⟨rfl, hq⟩
    rw [hold]
    by_cases hq : q = c.clocks.source p
    · rw [← hq]
      cases q with
      | real => exact .same
      | frozen i =>
        rw [Clocks.timeline_discard]
        exact .discard rfl
    · rw [Clocks.timeline_discard_ne _ hq]
      exact .same

theorem change_of_step (h : c.step x = some c') (q : Source) :
    Change c x q (c'.clocks.timeline q) := by
  cases steps_of_step h with
  | use hq hu => exact change_setTimeline (.use rfl hu)
  | pass m => exact change_setTimeline (q := .real) (.pass rfl)
  | newTimeline at_ =>
    by_cases hq : q = .frozen (c.clocks.lastTimeline + 1)
    · subst hq
      have hnew := Clocks.timeline_newTimeline c.clocks at_
      exact (congrArg _ hnew).mpr (.fresh rfl)
    · show Change c _ q ((c.clocks.newTimeline at_).2.timeline q)
      rw [Clocks.timeline_newTimeline_ne _ at_ hq]
      exact .same
  | newProvider guard => cases q <;> exact .same
  | install p at_ => exact change_install p at_ q
  | advance d hq hreal => exact .same
  | @fire q' a rest f t hc hp =>
    by_cases hq : q = q'
    · subst hq
      rw [timeline_handOver, update, Clocks.timeline_setTimeline]
      exact .fire hc hp
    · rw [timeline_handOver_ne _ hq, update, Clocks.timeline_setTimeline_ne _ hq]
      exact .same
  | finish hc hp => exact change_setTimeline (.settle hc hp)
  | leave hc => exact .same

/-! ### What every action keeps -/

/-- The timelines are in order, and every source in use is known. -/
structure Sane (c : Process κ) : Prop where
  real_valid : c.clocks.real.queue.Valid
  tended : ∀ i, (c.clocks.timeline (.frozen i)).Tended
  source_known : ∀ p, c.clocks.Knows (c.clocks.source p)
  advances_known : ∀ a ∈ c.advances, c.clocks.Knows a.1

theorem sane_start (origin : Instant) : Sane (start origin : Process κ) where
  real_valid := Timeline.valid_start origin.reading
  tended i := by
    have hempty : (start origin : Process κ).clocks.timeline (.frozen i) = default := by
      simp [start, Clocks.start, Clocks.timeline]
    rw [hempty]
    exact Timeline.tended_start default
  source_known p := by
    have hreal : (start origin : Process κ).clocks.source p = .real := by
      simp only [start, Clocks.start, Clocks.source, Clocks.provider, Std.TreeMap.getD_emptyc]
      rfl
    rw [hreal]
    trivial
  advances_known a ha := by cases ha

theorem Sane.valid (h : Sane c) (q : Source) : (c.clocks.timeline q).queue.Valid := by
  cases q with
  | real => exact h.real_valid
  | frozen i => exact (h.tended i).valid

theorem Change.tended {i : Nat} {t : Timeline κ} (h : (c.clocks.timeline (.frozen i)).Tended)
    (hc : Change c x (.frozen i) t) : t.Tended := by
  cases hc with
  | same => exact h
  | use hx hu => exact h.use hu
  | pass hq => cases hq
  | fresh hq => exact Timeline.tended_start _
  | discard hx => exact h.move (m := .discard) (by simp)
  | fire hadv hp => exact h.handOver hp
  | settle hadv hp => exact ⟨h.valid, h.id_le⟩

theorem Change.real_valid {t : Timeline κ} (h : c.clocks.real.queue.Valid)
    (hc : Change c x .real t) : t.queue.Valid := by
  cases hc with
  | same => exact h
  | use hx hu => exact Timeline.valid_use h _
  | pass hq => exact Timeline.valid_move h _
  | fresh hq => cases hq
  | discard hx => exact Timeline.valid_move h .discard
  | @fire a rest f t hadv hp =>
    have hmove : c.clocks.real.move (.popDue a.limit) = t := by
      show ((c.clocks.real.popDue a.limit).map (·.2)).getD _ = t
      rw [show c.clocks.real.popDue a.limit = some (f, t) from hp]
      rfl
    have hv := hmove ▸ Timeline.valid_move h (.popDue a.limit)
    unfold Solo.handOver
    split <;> exact hv
  | settle hadv hp => exact h

theorem lastTimeline_le_of_step (h : c.step x = some c') :
    c.clocks.lastTimeline ≤ c'.clocks.lastTimeline := by
  cases steps_of_step h with
  | newTimeline at_ => exact Nat.le_succ _
  | install p at_ =>
    have hlast := Clocks.lastTimeline_install c.clocks p at_
    simp only [hlast, Nat.le_add_right]
  | newProvider guard => exact Nat.le_refl _
  | advance d hq hreal => exact Nat.le_refl _
  | leave hc => exact Nat.le_refl _
  | fire hc hp => simp only [lastTimeline_handOver, update, Clocks.lastTimeline_setTimeline,
      Nat.le_refl]
  | _ => simp only [update, Clocks.lastTimeline_setTimeline, Nat.le_refl]

/-- A provider keeps its source unless it is frozen, unfrozen or new. -/
theorem source_of_step (h : c.step x = some c') (p : Nat) :
    c'.clocks.source p = c.clocks.source p ∨ c'.clocks.source p = .real ∨
      ∃ r, x = .install p (some r) ∧
        c'.clocks.source p = .frozen (c.clocks.lastTimeline + 1) := by
  cases steps_of_step h with
  | install p' at_ =>
    by_cases hp : p = p'
    · subst hp
      cases at_ with
      | none => exact .inr (.inl (Clocks.source_unfreeze c.clocks p))
      | some r => exact .inr (.inr ⟨r, rfl, Clocks.source_freeze c.clocks p r⟩)
    · exact .inl (Clocks.source_install_ne c.clocks hp at_)
  | newProvider guard =>
    by_cases hp : c.clocks.lastProvider + 1 = p
    · refine .inr (.inl ?_)
      simp [Clocks.newProvider, Clocks.source, Clocks.provider, hp]
    · refine .inl ?_
      simp [Clocks.newProvider, Clocks.source, Clocks.provider, Std.TreeMap.getD_insert, hp]
  | newTimeline at_ => exact .inl rfl
  | advance d hq hreal => exact .inl rfl
  | leave hc => exact .inl rfl
  | fire hc hp => exact .inl ((source_handOver _ _ _ p).trans (Clocks.source_setTimeline _ _ _ p))
  | _ => exact .inl (Clocks.source_setTimeline _ _ _ p)

/-- The thread is in no new advance unless it begins one. -/
theorem advances_of_step (h : c.step x = some c') {a : Source × Advancing} (ha : a ∈ c'.advances) :
    a ∈ c.advances ∨ c.clocks.Knows a.1 ∧ ∃ d, x = .advance a.1 d := by
  cases steps_of_step h with
  | advance d hq hreal =>
    obtain rfl | ha := List.mem_cons.mp ha
    · exact .inr ⟨hq, d, rfl⟩
    · exact .inl ha
  | fire hc hp =>
    rw [advances_handOver] at ha
    exact .inl ha
  | finish hc hp => exact .inl (hc ▸ List.mem_cons_of_mem _ ha)
  | leave hc => exact .inl (hc ▸ List.mem_cons_of_mem _ ha)
  | _ => exact .inl ha

theorem Change.lastId_le {q : Source} {t : Timeline κ} (hs : Sane c) (hq : c.clocks.Knows q)
    (hc : Change c x q t) : (c.clocks.timeline q).queue.lastId ≤ t.queue.lastId := by
  have hv := hs.valid q
  cases hc with
  | use hx hu => exact Timeline.lastId_le_use hv _
  | pass hreal => exact Timeline.lastId_le_move hv _
  | fresh hnew => exact absurd hnew hq.ne_new
  | fire hc hp =>
    rw [Timeline.lastId_handOver]
    exact Timeline.lastId_le_popDue hv hp
  | _ => exact Nat.le_refl _

theorem Sane.grew_of_step (hs : Sane c) (h : c.step x = some c') :
    Clocks.Grew c.clocks c'.clocks :=
  ⟨lastTimeline_le_of_step h, fun q hq => (change_of_step h q).lastId_le hs hq⟩

theorem Sane.step (hs : Sane c) (h : c.step x = some c') : Sane c' where
  real_valid := (change_of_step h .real).real_valid hs.real_valid
  tended i := (change_of_step h (.frozen i)).tended (hs.tended i)
  source_known p := by
    obtain hsame | hreal | ⟨r, rfl, hnew⟩ := source_of_step h p
    · rw [hsame]
      exact (hs.grew_of_step h).knows (hs.source_known p)
    · rw [hreal]
      trivial
    · cases h
      rw [hnew]
      refine ⟨Nat.succ_pos _, ?_⟩
      exact Nat.le_of_eq (Clocks.lastTimeline_install c.clocks p (some r)).symm
  advances_known a ha := by
    obtain hold | ⟨hknown, -⟩ := advances_of_step h ha
    · exact (hs.grew_of_step h).knows (hs.advances_known a hold)
    · exact (hs.grew_of_step h).knows hknown

/-- What every step keeps of a sane process, a run keeps. -/
theorem run_invariant {P : Process κ → Prop} {xs : List (Action κ)}
    (hstep : ∀ c c' x, x ∈ xs → Sane c → P c → c.step x = some c' → P c') (hs : Sane c) (hP : P c)
    (hrun : c.run xs = some c') : Sane c' ∧ P c' := by
  induction xs generalizing c with
  | nil =>
    cases hrun
    exact ⟨hs, hP⟩
  | cons x xs ih =>
    rw [run_cons] at hrun
    obtain ⟨c₁, hx, hrest⟩ := Option.bind_eq_some_iff.mp hrun
    refine ih (fun c c' y hy => hstep c c' y (List.mem_cons_of_mem x hy)) (hs.step hx) ?_ hrest
    exact hstep c c₁ x List.mem_cons_self hs hP hx

theorem Sane.run (hs : Sane c) {xs : List (Action κ)} (hrun : c.run xs = some c') : Sane c' :=
  (run_invariant (P := fun _ => True) (fun _ _ _ _ _ _ _ => trivial) hs trivial hrun).1

theorem Sane.grew (hs : Sane c) {xs : List (Action κ)} (hrun : c.run xs = some c') :
    Clocks.Grew c.clocks c'.clocks :=
  (run_invariant (P := fun c' => Clocks.Grew c.clocks c'.clocks)
    (fun _ _ _ _ hs h hstep => h.trans (hs.grew_of_step hstep)) hs (.refl _) hrun).2

end Process

end VirtualClock

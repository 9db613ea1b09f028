import VirtualClock.Proofs.Timeline.Order

/-! A timeline with one caller, who may be in several advances at once: each began in a callback of
the one outside of it. Whatever callbacks do, and however they leave, time stays between the start
of the timeline and the earliest pending target, so every event fires at its own target. -/

namespace VirtualClock

/-- An advance that has begun. -/
structure Advancing where
  /-- The instant at which it began. -/
  start : Instant
  delay : Delay

/-- The instant up to which the advance fires events. -/
def Advancing.limit (a : Advancing) : Instant := a.start.deadline a.delay.clamp

/-- A timeline with one caller, and the advances that the caller is in, innermost first. -/
structure Solo (κ : Type) where
  timeline : Timeline κ
  advances : List Advancing := []

/-- A step that only an advance takes. -/
def Move.isInner {κ : Type} : Move κ → Bool
  | .popDue _ | .settle _ | .send .. => true
  | _ => false

/-- What a single caller does. -/
inductive Deed (κ : Type) where
  /-- A step that is no part of an advance. -/
  | act (m : Move κ)
  | advance (d : Delay)
  /-- The innermost advance fires an event. What its callback does follows. -/
  | fire
  /-- The innermost advance finds nothing due and returns. -/
  | finish
  /-- The innermost advance is left by a panic. -/
  | leave

namespace Solo

variable {κ : Type}

/-- A fresh timeline at `at_`. -/
def start (at_ : Reading) : Solo κ := { timeline := .start at_ }

/-- The timeline after a firing has reached its channel, if it goes to one. -/
def handOver (t : Timeline κ) (f : Firing (Delivery κ)) : Timeline κ :=
  match f.deliver with
  | .channel => t.send f.id f.at_
  | .callback _ => t

/-- The state after a deed, if the deed is possible. -/
def step (c : Solo κ) : Deed κ → Option (Solo κ)
  | .act m => if m.isInner then none else some { c with timeline := c.timeline.move m }
  | .advance d => some { c with advances := ⟨c.timeline.now, d⟩ :: c.advances }
  | .fire =>
    match c.advances with
    | [] => none
    | a :: _ => (c.timeline.popDue a.limit).map fun (f, t) => { c with timeline := handOver t f }
  | .finish =>
    match c.advances with
    | [] => none
    | a :: rest =>
      if (c.timeline.popDue a.limit).isSome then none
      else some ⟨c.timeline.settle a.limit, rest⟩
  | .leave =>
    match c.advances with
    | [] => none
    | _ :: rest => some { c with advances := rest }

/-- The state after some deeds, if they are possible. -/
def run (c : Solo κ) (ds : List (Deed κ)) : Option (Solo κ) := ds.foldlM step c

@[simp] theorem run_nil (c : Solo κ) : c.run [] = some c := rfl

theorem run_cons (c : Solo κ) (d : Deed κ) (ds : List (Deed κ)) :
    c.run (d :: ds) = (c.step d).bind (·.run ds) := rfl

theorem run_append (c : Solo κ) (ds ds' : List (Deed κ)) :
    c.run (ds ++ ds') = (c.run ds).bind (·.run ds') := List.foldlM_append

theorem run_of_append {c c' : Solo κ} {ds ds' : List (Deed κ)} (h : c.run ds = some c') :
    c.run (ds ++ ds') = c'.run ds' := by
  rw [run_append, h]
  rfl

/-! ### What every deed keeps -/

/-- Time is between the start of the timeline and the earliest pending target. -/
structure Sound (at_ : Reading) (t : Timeline κ) : Prop where
  valid : t.queue.Valid
  origin_eq : t.origin = at_
  start_le_now : at_.instant ≤ t.now
  now_le_target : ∀ e ∈ t.queue, t.now ≤ e.target

theorem sound_start (at_ : Reading) : Sound at_ (.start at_ : Timeline κ) where
  valid := Timeline.valid_start at_
  origin_eq := rfl
  start_le_now := Int.le_refl _
  now_le_target e he := absurd he (Timeline.not_mem_start at_ e)

theorem origin_move (t : Timeline κ) (m : Move κ) : (t.move m).origin = t.origin := by
  cases m with
  | popDue limit => rw [Timeline.move, Timeline.popDue]; cases t.queue.popDue limit <;> rfl
  | receive id => rw [Timeline.move, Timeline.receive]; cases t.waiting[id]? <;> rfl
  | register count =>
    rw [Timeline.move, Timeline.register]
    cases t.queue.register count <;> rfl
  | _ => rfl

/-- Only an advance takes events off the queue. -/
theorem taken_eq_nil {t : Timeline κ} {ms : List (Move κ)} (hms : ∀ m ∈ ms, m.isInner = false) :
    t.taken ms = [] := by
  induction ms generalizing t with
  | nil => rfl
  | cons m ms ih =>
    rw [List.forall_mem_cons] at hms
    rw [Timeline.taken, ih hms.2, List.append_nil]
    cases m with
    | popDue limit => cases hms.1
    | _ => rfl

/-- Only an advance moves time. -/
theorem now_move {t : Timeline κ} {m : Move κ} (hm : m.isInner = false) :
    (t.move m).now = t.now := by
  cases m with
  | popDue limit => cases hm
  | settle limit => cases hm
  | receive id => rw [Timeline.move, Timeline.receive]; cases t.waiting[id]? <;> rfl
  | register count =>
    rw [Timeline.move, Timeline.register]
    cases t.queue.register count <;> rfl
  | _ => rfl

theorem Sound.move {at_ : Reading} {t : Timeline κ} (h : Sound at_ t) {m : Move κ}
    (hm : m.isInner = false) : Sound at_ (t.move m) where
  valid := Timeline.valid_move h.valid m
  origin_eq := (origin_move t m).trans h.origin_eq
  start_le_now := by
    rw [now_move hm]
    exact h.start_le_now
  now_le_target e he := by
    rw [now_move hm]
    obtain ⟨hold, -⟩ | hnew := (Timeline.mem_move h.valid m).mp he
    · exact h.now_le_target e hold
    · have hquiet : t.taken? m = none := by
        cases m with
        | popDue limit => cases hm
        | _ => rfl
      exact Timeline.now_le_of_queued? hnew hquiet

/-- The jump to an event that fires ends exactly at its target. -/
theorem Sound.popDue {at_ : Reading} {t t' : Timeline κ} (h : Sound at_ t) {limit : Instant}
    {f : Firing (Delivery κ)} (hp : t.popDue limit = some (f, t')) :
    ∃ e ∈ t.queue, t.taken? (.popDue limit) = some e ∧ f = e.firing ∧ t'.now = e.target ∧
      Sound at_ t' := by
  obtain ⟨e, htaken, hmem, -, -, rfl, rfl⟩ := Timeline.popDue_eq_some h.valid hp
  obtain ⟨_, -, -, hmove, -⟩ := Timeline.taken?_eq_some h.valid htaken
  have hnow : (t.popped e).now = e.target := Instant.later_of_le (h.now_le_target e hmem)
  refine ⟨e, hmem, htaken, rfl, hnow, ?_, h.origin_eq, ?_, fun x hx => ?_⟩
  · rw [← hmove]
    exact Timeline.valid_move h.valid _
  · rw [hnow]
    exact Int.le_trans h.start_le_now (h.now_le_target e hmem)
  · rw [← hmove] at hx
    have hkey := OrderKey.lt_iff_nanos.mp (Timeline.key_lt_of_taken? h.valid htaken hx)
    rw [hnow, Instant.le_def]
    simp only [Event.key] at hkey
    omega

/-- An advance that settles on a limit before which nothing is due. -/
theorem Sound.settle {at_ : Reading} {t : Timeline κ} (h : Sound at_ t) {limit : Instant}
    (hp : t.popDue limit = none) : Sound at_ (t.settle limit) where
  valid := h.valid
  origin_eq := h.origin_eq
  start_le_now := Int.le_trans h.start_le_now (Instant.le_later_left t.now limit)
  now_le_target e he := by
    have hnow := h.now_le_target e he
    have hlimit := (Timeline.popDue_eq_none h.valid).mp hp e he
    rw [Instant.lt_def] at hlimit
    show (t.now.later limit).nanos ≤ e.target.nanos
    rw [Instant.nanos_later]
    exact Int.max_le.mpr ⟨hnow, Int.le_of_lt hlimit⟩

theorem Sound.handOver {at_ : Reading} {t : Timeline κ} (h : Sound at_ t)
    (f : Firing (Delivery κ)) : Sound at_ (handOver t f) := by
  unfold Solo.handOver
  split
  · exact ⟨h.valid, h.origin_eq, h.start_le_now, h.now_le_target⟩
  · exact h

theorem now_handOver (t : Timeline κ) (f : Firing (Delivery κ)) : (handOver t f).now = t.now := by
  unfold Solo.handOver
  split <;> rfl

/-! ### What each deed does -/

theorem step_act {c c' : Solo κ} {m : Move κ} (h : c.step (.act m) = some c') :
    m.isInner = false ∧ c' = { c with timeline := c.timeline.move m } := by
  rw [step] at h
  split at h
  · cases h
  · rename_i hm
    exact ⟨by simpa using hm, (Option.some.inj h).symm⟩

theorem step_fire {c c' : Solo κ} (h : c.step .fire = some c') :
    ∃ a rest f t, c.advances = a :: rest ∧ c.timeline.popDue a.limit = some (f, t) ∧
      c' = { c with timeline := handOver t f } := by
  rw [step] at h
  split at h
  · cases h
  · rename_i a rest hadv
    obtain ⟨⟨f, t⟩, hp, rfl⟩ := Option.map_eq_some_iff.mp h
    exact ⟨a, rest, f, t, hadv, hp, rfl⟩

theorem step_finish {c c' : Solo κ} (h : c.step .finish = some c') :
    ∃ a rest, c.advances = a :: rest ∧ c.timeline.popDue a.limit = none ∧
      c' = ⟨c.timeline.settle a.limit, rest⟩ := by
  rw [step] at h
  split at h
  · cases h
  · rename_i a rest hadv
    split at h
    · cases h
    · rename_i hp
      exact ⟨a, rest, hadv, by simpa using hp, (Option.some.inj h).symm⟩

theorem step_leave {c c' : Solo κ} (h : c.step .leave = some c') :
    c'.timeline = c.timeline := by
  rw [step] at h
  split at h
  · cases h
  · rw [← Option.some.inj h]

theorem Sound.step {at_ : Reading} {c c' : Solo κ} (h : Sound at_ c.timeline) {d : Deed κ}
    (hd : c.step d = some c') : Sound at_ c'.timeline ∧ c.timeline.now ≤ c'.timeline.now := by
  cases d with
  | act m =>
    obtain ⟨hm, rfl⟩ := step_act hd
    exact ⟨h.move hm, Timeline.now_le_now_move h.valid m⟩
  | advance d =>
    cases hd
    exact ⟨h, Int.le_refl _⟩
  | fire =>
    obtain ⟨a, rest, f, t, -, hp, rfl⟩ := step_fire hd
    obtain ⟨e, hmem, -, -, hnow, ht⟩ := h.popDue hp
    refine ⟨ht.handOver f, ?_⟩
    show c.timeline.now ≤ (Solo.handOver t f).now
    rw [now_handOver, hnow]
    exact h.now_le_target e hmem
  | finish =>
    obtain ⟨a, rest, -, hp, rfl⟩ := step_finish hd
    exact ⟨h.settle hp, Instant.le_later_left c.timeline.now a.limit⟩
  | leave =>
    rw [step_leave hd]
    exact ⟨h, Int.le_refl _⟩

theorem Sound.run {at_ : Reading} {c c' : Solo κ} (h : Sound at_ c.timeline) {ds : List (Deed κ)}
    (hrun : c.run ds = some c') : Sound at_ c'.timeline := by
  induction ds generalizing c with
  | nil =>
    cases hrun
    exact h
  | cons d ds ih =>
    rw [run_cons] at hrun
    obtain ⟨c₁, hd, hrest⟩ := Option.bind_eq_some_iff.mp hrun
    exact ih (h.step hd).1 hrest

/-- The moves of a deed. -/
def made (c : Solo κ) : Deed κ → List (Move κ)
  | .act m => [m]
  | .fire =>
    match c.advances with
    | [] => []
    | a :: _ => .popDue a.limit :: match c.timeline.popDue a.limit with
      | some (⟨id, at_, .channel⟩, _) => [.send id at_]
      | _ => []
  | .finish => (c.advances.head?.map fun a => Move.settle a.limit).toList
  | .advance _ | .leave => []

/-- The moves of some deeds. -/
def story (c : Solo κ) : List (Deed κ) → List (Move κ)
  | [] => []
  | d :: ds => c.made d ++ (c.step d).elim [] (·.story ds)

theorem timeline_step {c c' : Solo κ} {d : Deed κ} (h : c.step d = some c') :
    c'.timeline = c.timeline.moves (c.made d) := by
  cases d with
  | act m =>
    obtain ⟨-, rfl⟩ := step_act h
    rfl
  | advance d =>
    cases h
    rfl
  | fire =>
    obtain ⟨a, rest, ⟨id, value, deliver⟩, t, hadv, hp, rfl⟩ := step_fire h
    have hmove : c.timeline.move (.popDue a.limit) = t := by rw [Timeline.move, hp]; rfl
    rw [made, hadv]
    simp only [hp]
    cases deliver with
    | channel =>
      rw [Timeline.moves_cons, hmove]
      rfl
    | callback k => exact hmove.symm
  | finish =>
    obtain ⟨a, rest, hadv, -, rfl⟩ := step_finish h
    rw [made, hadv]
    rfl
  | leave => exact step_leave h

theorem story_cons {c c' : Solo κ} {d : Deed κ} (h : c.step d = some c') (ds : List (Deed κ)) :
    c.story (d :: ds) = c.made d ++ c'.story ds := by
  rw [story, h]
  rfl

/-- What a single caller does is a row of moves. -/
theorem timeline_run {c c' : Solo κ} {ds : List (Deed κ)} (h : c.run ds = some c') :
    c'.timeline = c.timeline.moves (c.story ds) := by
  induction ds generalizing c with
  | nil =>
    cases h
    rfl
  | cons d ds ih =>
    rw [run_cons] at h
    obtain ⟨c₁, hd, hrest⟩ := Option.bind_eq_some_iff.mp h
    rw [ih hrest, timeline_step hd, story_cons hd, Timeline.moves_append]

/-- What holds of a single caller, on a timeline that started at `at_`, wherever it may be. -/
structure OnTime (at_ : Reading) (c : Solo κ) : Prop where
  start_le_now : at_.instant ≤ c.timeline.now
  now_le_target : ∀ e ∈ c.timeline.queue, c.timeline.now ≤ e.target
  now_le_step : ∀ d c', c.step d = some c' → c.timeline.now ≤ c'.timeline.now
  /-- The event that fires is handed over at the instant of its own target. -/
  fire : ∀ c', c.step .fire = some c' →
    ∃ a e t, c.advances.head? = some a ∧ e ∈ c.timeline.queue ∧
      c.timeline.popDue a.limit = some (e.firing, t) ∧ t.now = e.target ∧
      c'.timeline = handOver t e.firing ∧ c'.timeline.now = e.target
  /-- An advance returns when nothing is left for it to do. -/
  finish : ∀ c', c.step .finish = some c' →
    ∃ a, c.advances = a :: c'.advances ∧ (∀ e ∈ c'.timeline.queue, a.limit < e.target) ∧
      a.limit ≤ c'.timeline.now ∧ c'.timeline.elapsed = (at_.carry c'.timeline.now).since at_

theorem Sound.onTime {at_ : Reading} {c : Solo κ} (h : Sound at_ c.timeline) : OnTime at_ c where
  start_le_now := h.start_le_now
  now_le_target := h.now_le_target
  now_le_step _ _ hd := (h.step hd).2
  fire c' hd := by
    obtain ⟨a, rest, f, t, hadv, hp, rfl⟩ := step_fire hd
    obtain ⟨e, hmem, -, rfl, hnow, -⟩ := h.popDue hp
    refine ⟨a, e, t, by rw [hadv]; rfl, hmem, hp, hnow, rfl, ?_⟩
    exact (now_handOver t e.firing).trans hnow
  finish c' hd := by
    obtain ⟨a, rest, hadv, hp, rfl⟩ := step_finish hd
    refine ⟨a, hadv, (Timeline.popDue_eq_none h.valid).mp hp, ?_, ?_⟩
    · show a.limit.nanos ≤ (c.timeline.now.later a.limit).nanos
      rw [Instant.nanos_later]
      exact Int.le_max_right _ _
    · rw [Timeline.elapsed, Timeline.reading, (h.settle hp).origin_eq]

end Solo

end VirtualClock

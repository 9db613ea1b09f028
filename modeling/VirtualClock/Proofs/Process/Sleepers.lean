import VirtualClock.Proofs.Process
import VirtualClock.Proofs.Timeline.Channels

/-! Threads that sleep on a provider while other threads freeze and unfreeze it. A thread that
sleeps first loads the installed timeline and then arms a timer there; a freeze first swaps the
timeline and then discards the old one. A thread that arms its timer in between is released by the discard. One
that arms it after the discard sleeps on a timeline that nobody advances any more. -/

namespace VirtualClock

inductive Sleeper where
  /-- It has loaded the timeline that was installed, and is to arm a timer there. -/
  | loaded (timeline : Nat) (d : Delay)
  /-- It waits for the event `id`. It is `late` if the timeline had been discarded when it armed. -/
  | waiting (timeline id : Nat) (late : Bool)
deriving DecidableEq

/-- The clocks of a process in which threads sleep on a provider and others freeze it. -/
structure Sleeping (κ : Type) where
  clocks : Clocks κ
  sleepers : List Sleeper := []
  /-- The timelines that were swapped out of the provider and are yet to be discarded. -/
  swapped : List Nat := []
  discarded : List Nat := []

def Source.number? : Source → Option Nat
  | .real => none
  | .frozen i => some i

/-- The id that a use arms again. -/
def Use.reset? {κ : Type} : Use κ → Option Nat
  | .reset id .. => some id
  | _ => none

/-- What is pending after a section of an advance was pending before, or is a tick of a ticker that
was. -/
theorem Timeline.mem_move_inner {κ : Type} {t : Timeline κ} (h : t.queue.Valid) {m : Move κ}
    (hm : m.isInner = true) {x : Event (Delivery κ)} (hx : x ∈ (t.move m).queue) :
    ∃ e ∈ t.queue, e.id = x.id := by
  obtain ⟨hold, -⟩ | hnew := (mem_move h m).mp hx
  · exact ⟨x, hold, rfl⟩
  · cases m with
    | popDue limit =>
      obtain ⟨e, he, hnext⟩ := Option.bind_eq_some_iff.mp hnew
      obtain ⟨e', he', rfl⟩ := Option.map_eq_some_iff.mp hnext
      obtain ⟨_, -, -, -, hmem, -⟩ := taken?_eq_some h he
      exact ⟨e, hmem, (Event.next?_eq_some he').1.symm⟩
    | settle limit => cases hnew
    | send id value => cases hnew
    | _ => cases hm

theorem Source.mem_number? {s : Source} {i : Nat} : i ∈ s.number?.toList ↔ s = .frozen i := by
  cases s with
  | real => simp [number?]
  | frozen j => simp [number?, eq_comm]

namespace Sleeping

variable {κ : Type}

inductive Action (κ : Type) where
  /-- A thread that is to sleep loads the installed source. -/
  | load (d : Delay)
  /-- A thread arms a timer on the timeline that it loaded, and waits. -/
  | arm (j : Nat)
  /-- A thread that freezes the provider at a reading, or unfreezes it, swaps the source. -/
  | swap (at_ : Option Reading)
  /-- A thread discards the timeline that it swapped out. -/
  | discard (k : Nat)
  | use (i : Nat) (u : Use κ)
  /-- A thread takes a section of an advance. -/
  | move (i : Nat) (m : Move κ)

def awake (clocks : Clocks κ) : Sleeping κ := { clocks }

def update (c : Sleeping κ) (i : Nat) (t : Timeline κ) : Sleeping κ :=
  { c with clocks := c.clocks.setTimeline (.frozen i) t }

/-- Whether the event `id` of the timeline `i` is that of a sleeper. -/
def owns (c : Sleeping κ) (i id : Nat) : Bool :=
  c.sleepers.any fun s => s = .waiting i id true || s = .waiting i id false

/-- The state after a step of some thread with the provider `p`. A step that nobody can take changes
nothing, and nobody but a sleeper has a handle of its timer. -/
def step (p : Nat) (c : Sleeping κ) : Action κ → Sleeping κ
  | .load d =>
    match c.clocks.source p with
    | .real => c
    | .frozen i => { c with sleepers := c.sleepers ++ [.loaded i d] }
  | .arm j =>
    match c.sleepers[j]? with
    | some (.loaded i d) =>
      let (id, t) := (c.clocks.timeline (.frozen i)).startTimer d .channel
      { c.update i t with sleepers := c.sleepers.set j (.waiting i id (c.discarded.contains i)) }
    | _ => c
  | .swap (some r) =>
    let (s, clocks) := c.clocks.newTimeline r
    let (previous, clocks) := clocks.swap p s
    { c with clocks, swapped := c.swapped ++ previous.number?.toList }
  | .swap none =>
    let (previous, clocks) := c.clocks.swap p .real
    { c with clocks, swapped := c.swapped ++ previous.number?.toList }
  | .discard k =>
    match c.swapped[k]? with
    | some i =>
      { c with
        clocks := (c.clocks.discard (.frozen i)).2
        swapped := c.swapped.eraseIdx k
        discarded := i :: c.discarded }
    | none => c
  | .use i u =>
    if c.clocks.Knows (.frozen i) ∧ (c.clocks.timeline (.frozen i)).Allows u ∧
        ∀ id ∈ u.reset?, c.owns i id = false then
      c.update i ((c.clocks.timeline (.frozen i)).use u)
    else c
  | .move i m =>
    if c.clocks.Knows (.frozen i) ∧ m.isInner then
      c.update i ((c.clocks.timeline (.frozen i)).move m)
    else c

def run (p : Nat) (c : Sleeping κ) (xs : List (Action κ)) : Sleeping κ := xs.foldl (step p) c

/-- A thread that waits for the event `id` of the timeline `i` sleeps on. -/
def Asleep (c : Sleeping κ) (i id : Nat) : Prop :=
  (c.clocks.timeline (.frozen i)).isReady id false = false

@[simp] theorem run_nil (p : Nat) (c : Sleeping κ) : c.run p [] = c := rfl

@[simp] theorem run_cons (p : Nat) (c : Sleeping κ) (x : Action κ) (xs : List (Action κ)) :
    c.run p (x :: xs) = (c.step p x).run p xs := rfl

theorem clocks_discard_swapped (c : Clocks κ) (p : Nat) (s : Source) :
    (step p { clocks := c, swapped := [] ++ s.number?.toList } (.discard 0)).clocks =
      (c.discard s).2 := by
  cases s <;> rfl

/-- Swapping the source and discarding the timeline that was swapped out is a freeze, or the end of
one. -/
theorem clocks_swap_discard (c : Clocks κ) (p : Nat) (at_ : Option Reading) :
    ((awake c).run p [.swap at_, .discard 0]).clocks = (c.install p at_).2 := by
  cases at_ with
  | none => exact clocks_discard_swapped (c.swap p .real).2 p (c.source p)
  | some r => exact clocks_discard_swapped _ p (c.source p)

/-- Loading a frozen source and arming a timer there is what a thread does that goes to sleep. -/
theorem clocks_load_arm (c : Clocks κ) {p i : Nat} (hi : c.source p = .frozen i) (d : Delay) :
    ((awake c).run p [.load d, .arm 0]).clocks =
      c.setTimeline (.frozen i) ((c.timeline (.frozen i)).startTimer d .channel).2 := by
  simp [awake, step, hi, update]

inductive Steps (p : Nat) (c : Sleeping κ) : Action κ → Sleeping κ → Prop where
  /-- Nobody can take it. -/
  | idle (x : Action κ) : Steps p c x c
  | load {i : Nat} (hi : c.clocks.source p = .frozen i) (d : Delay) :
      Steps p c (.load d) { c with sleepers := c.sleepers ++ [.loaded i d] }
  | arm {j i : Nat} {d : Delay} (hj : c.sleepers[j]? = some (.loaded i d)) :
      Steps p c (.arm j)
        { c.update i ((c.clocks.timeline (.frozen i)).startTimer d .channel).2 with
          sleepers := c.sleepers.set j (.waiting i
            ((c.clocks.timeline (.frozen i)).startTimer d .channel).1 (c.discarded.contains i)) }
  | freeze (r : Reading) :
      Steps p c (.swap (some r))
        { c with
          clocks :=
            ((c.clocks.newTimeline r).2.swap p (.frozen (c.clocks.lastTimeline + 1))).2
          swapped := c.swapped ++ (c.clocks.source p).number?.toList }
  | unfreeze :
      Steps p c (.swap none)
        { c with
          clocks := (c.clocks.swap p .real).2
          swapped := c.swapped ++ (c.clocks.source p).number?.toList }
  | discard {k i : Nat} (hk : c.swapped[k]? = some i) :
      Steps p c (.discard k)
        { c with
          clocks := (c.clocks.discard (.frozen i)).2
          swapped := c.swapped.eraseIdx k
          discarded := i :: c.discarded }
  | use {i : Nat} {u : Use κ} (hi : c.clocks.Knows (.frozen i))
      (hu : (c.clocks.timeline (.frozen i)).Allows u)
      (howns : ∀ id ∈ u.reset?, c.owns i id = false) :
      Steps p c (.use i u) (c.update i ((c.clocks.timeline (.frozen i)).use u))
  | move {i : Nat} {m : Move κ} (hi : c.clocks.Knows (.frozen i)) (hm : m.isInner = true) :
      Steps p c (.move i m) (c.update i ((c.clocks.timeline (.frozen i)).move m))

theorem steps_step (p : Nat) (c : Sleeping κ) (x : Action κ) : Steps p c x (c.step p x) := by
  cases x with
  | load d =>
    rw [step]
    split
    · exact .idle _
    · rename_i hi
      exact .load hi d
  | arm j =>
    rw [step]
    split
    · rename_i hj
      exact .arm hj
    · exact .idle _
  | swap at_ =>
    cases at_ with
    | none => exact .unfreeze
    | some r => exact .freeze r
  | discard k =>
    rw [step]
    split
    · rename_i hk
      exact .discard hk
    · exact .idle _
  | use i u =>
    rw [step]
    split
    · rename_i hu
      exact .use hu.1 hu.2.1 hu.2.2
    · exact .idle _
  | move i m =>
    rw [step]
    split
    · rename_i hm
      exact .move hm.1 hm.2
    · exact .idle _

/-! ### What every step keeps -/

variable {p : Nat} {c c' : Sleeping κ} {x : Action κ}

/-- The timelines that were ever installed: the installed one, those that are yet to be discarded,
and those that were. -/
def timelines (p : Nat) (c : Sleeping κ) : List Nat :=
  (c.clocks.source p).number?.toList ++ (c.swapped ++ c.discarded)

/-- What holds of a sleeper: it is on a timeline that was installed, and unless it was late it has
no event there once the timeline is discarded. -/
def Placed (p : Nat) (c : Sleeping κ) : Sleeper → Prop
  | .loaded i _ => i ∈ c.timelines p
  | .waiting i id late =>
    i ∈ c.timelines p ∧ id ≤ (c.clocks.timeline (.frozen i)).queue.lastId ∧
      (late = true → i ∈ c.discarded) ∧
      (late = false → i ∈ c.discarded → ∀ e ∈ (c.clocks.timeline (.frozen i)).queue, e.id ≠ id)

/-- Every timeline is installed once, swapped out once and discarded once. -/
structure Kept (p : Nat) (c : Sleeping κ) : Prop where
  tended : ∀ i, (c.clocks.timeline (.frozen i)).Tended
  nodup : (c.timelines p).Nodup
  knows : ∀ i ∈ c.timelines p, c.clocks.Knows (.frozen i)
  placed : ∀ s ∈ c.sleepers, c.Placed p s

theorem timeline_update (c : Sleeping κ) (i j : Nat) (t : Timeline κ) :
    (c.update i t).clocks.timeline (.frozen j) =
      if j = i then t else c.clocks.timeline (.frozen j) := by
  split
  · rename_i hj
    rw [hj]
    exact Clocks.timeline_setTimeline c.clocks (.frozen i) t
  · rename_i hj
    exact Clocks.timeline_setTimeline_ne c.clocks (fun heq => hj (Source.frozen.inj heq)) t

theorem Kept.update (h : Kept p c) {i : Nat} {t : Timeline κ} (ht : t.Tended)
    (hle : (c.clocks.timeline (.frozen i)).queue.lastId ≤ t.queue.lastId)
    (habsent : ∀ id, .waiting i id false ∈ c.sleepers →
      id ≤ (c.clocks.timeline (.frozen i)).queue.lastId →
      (∀ e ∈ (c.clocks.timeline (.frozen i)).queue, e.id ≠ id) → ∀ e ∈ t.queue, e.id ≠ id) :
    Kept p (c.update i t) := by
  have hsame : (c.update i t).timelines p = c.timelines p := by
    show (((c.clocks.setTimeline (.frozen i) t).source p).number?.toList ++ _) = _
    rw [Clocks.source_setTimeline]
    rfl
  have hlast : (c.update i t).clocks.lastTimeline = c.clocks.lastTimeline :=
    Clocks.lastTimeline_setTimeline _ _ _
  refine ⟨fun j => ?_, hsame ▸ h.nodup, fun j hj => ?_, fun s hs => ?_⟩
  · rw [timeline_update]
    split
    · exact ht
    · exact h.tended j
  · obtain ⟨hpos, hj⟩ := h.knows j (hsame ▸ hj)
    exact ⟨hpos, hlast ▸ hj⟩
  · have hplaced := h.placed s hs
    cases s with
    | loaded j d =>
      show j ∈ (c.update i t).timelines p
      rw [hsame]
      exact hplaced
    | waiting j id late =>
      obtain ⟨hmem, hid, hlate, hgone⟩ := hplaced
      refine ⟨hsame.symm ▸ hmem, ?_, hlate, fun hearly hdiscarded => ?_⟩ <;> rw [timeline_update]
      · split
        · rename_i hji
          exact Nat.le_trans (hji ▸ hid) hle
        · exact hid
      · split
        · rename_i hji
          subst hji hearly
          exact habsent id hs hid (hgone rfl hdiscarded)
        · exact hgone hearly hdiscarded

theorem owns_of_mem {i id : Nat} {late : Bool} (h : .waiting i id late ∈ c.sleepers) :
    c.owns i id = true := by
  refine List.any_eq_true.mpr ⟨_, h, ?_⟩
  cases late <;> simp

/-- Whoever uses a timeline arms nothing that a sleeper has seen gone. -/
theorem Kept.use (h : Kept p c) {i : Nat} {u : Use κ}
    (hu : (c.clocks.timeline (.frozen i)).Allows u)
    (howns : ∀ id ∈ u.reset?, c.owns i id = false) :
    Kept p (c.update i ((c.clocks.timeline (.frozen i)).use u)) := by
  have htended := h.tended i
  refine h.update (htended.use hu) (Timeline.lastId_le_use htended.valid u)
    fun id hs hid hgone e he => ?_
  obtain hold | hnew | ⟨delay, interval, deliver, rfl⟩ := Timeline.mem_use htended.valid hu he
  · exact hgone e hold
  · omega
  · rintro rfl
    have howned := howns e.id rfl
    rw [owns_of_mem hs] at howned
    cases howned

theorem Kept.move (h : Kept p c) {i : Nat} {m : Move κ} (hm : m.isInner = true) :
    Kept p (c.update i ((c.clocks.timeline (.frozen i)).move m)) := by
  have htended := h.tended i
  have harm : ∀ id delay interval deliver, m ≠ .arm id delay interval deliver := by
    rintro id delay interval deliver rfl
    cases hm
  refine h.update (htended.move harm) (Timeline.lastId_le_move htended.valid m)
    fun id _ _ hgone x hx => ?_
  obtain ⟨e, he, heq⟩ := Timeline.mem_move_inner htended.valid hm hx
  rw [← heq]
  exact hgone e he

/-- A swap takes the installed timeline out, and puts in one that is new or none. -/
theorem Kept.swap (h : Kept p c) {clocks : Clocks κ}
    (htended : ∀ i, (clocks.timeline (.frozen i)).Tended)
    (hsame : ∀ i, c.clocks.Knows (.frozen i) →
      clocks.timeline (.frozen i) = c.clocks.timeline (.frozen i))
    (hknows : ∀ i, c.clocks.Knows (.frozen i) → clocks.Knows (.frozen i))
    (hnew : ∀ i, clocks.source p = .frozen i →
      ¬c.clocks.Knows (.frozen i) ∧ clocks.Knows (.frozen i)) :
    Kept p { c with clocks, swapped := c.swapped ++ (c.clocks.source p).number?.toList } := by
  let c' : Sleeping κ :=
    { c with clocks, swapped := c.swapped ++ (c.clocks.source p).number?.toList }
  have hperm : (c'.timelines p).Perm ((clocks.source p).number?.toList ++ c.timelines p) := by
    refine List.Perm.append_left _ ?_
    show (c.swapped ++ (c.clocks.source p).number?.toList ++ c.discarded).Perm _
    rw [List.append_assoc, timelines]
    exact List.perm_append_comm_assoc _ _ _
  have hmem (i : Nat) : i ∈ c'.timelines p ↔ clocks.source p = .frozen i ∨ i ∈ c.timelines p := by
    rw [hperm.mem_iff, List.mem_append, Source.mem_number?]
  refine ⟨htended, hperm.nodup_iff.mpr ?_, fun i hi => ?_, fun s hs => ?_⟩
  · refine List.nodup_append.mpr ⟨?_, h.nodup, ?_⟩
    · cases clocks.source p <;> simp [Source.number?]
    · rintro i hi j hj rfl
      exact (hnew i (Source.mem_number?.mp hi)).1 (h.knows i hj)
  · obtain hi | hi := (hmem i).mp hi
    · exact (hnew i hi).2
    · exact hknows i (h.knows i hi)
  · have hplaced := h.placed s hs
    cases s with
    | loaded i d => exact (hmem i).mpr (.inr hplaced)
    | waiting i id late =>
      have hold := hsame i (h.knows i hplaced.1)
      refine ⟨(hmem i).mpr (.inr hplaced.1), ?_⟩
      rw [show ({ c with clocks } : Sleeping κ).clocks.timeline (.frozen i) = _ from hold]
      exact hplaced.2

theorem Kept.freeze (h : Kept p c) (r : Reading) :
    Kept p
      { c with
        clocks :=
          ((c.clocks.newTimeline r).2.swap p (.frozen (c.clocks.lastTimeline + 1))).2
        swapped := c.swapped ++ (c.clocks.source p).number?.toList } := by
  let n := c.clocks.lastTimeline + 1
  let clocks := ((c.clocks.newTimeline r).2.swap p (.frozen n)).2
  have hold (i : Nat) (hi : i ≠ n) :
      clocks.timeline (.frozen i) = c.clocks.timeline (.frozen i) :=
    (Clocks.timeline_swap _ p _ _).trans
      (Clocks.timeline_newTimeline_ne _ _ fun heq => hi (Source.frozen.inj heq))
  have hfresh : clocks.timeline (.frozen n) = .start r :=
    (Clocks.timeline_swap _ p _ _).trans (Clocks.timeline_newTimeline _ _)
  refine h.swap (fun i => ?_) (fun i hi => ?_) (fun i hi => ⟨hi.1, Nat.le_succ_of_le hi.2⟩)
    (fun i hi => ?_)
  · by_cases hi : i = n
    · rw [hi, hfresh]
      exact Timeline.tended_start _
    · rw [hold i hi]
      exact h.tended i
  · refine hold i ?_
    rintro rfl
    exact hi.ne_new rfl
  · rw [Clocks.source_swap] at hi
    obtain rfl : n = i := Source.frozen.inj hi
    exact ⟨fun hknows => hknows.ne_new rfl, Nat.succ_pos _, Nat.le_refl _⟩

theorem Kept.unfreeze (h : Kept p c) :
    Kept p
      { c with
        clocks := (c.clocks.swap p .real).2
        swapped := c.swapped ++ (c.clocks.source p).number?.toList } := by
  refine h.swap (fun i => ?_) (fun i _ => ?_) (fun i hi => hi) (fun i hi => ?_)
  · rw [Clocks.timeline_swap]
    exact h.tended i
  · exact Clocks.timeline_swap _ _ _ _
  · rw [Clocks.source_swap] at hi
    cases hi

theorem Kept.discard (h : Kept p c) {k i : Nat} (hk : c.swapped[k]? = some i) :
    Kept p
      { c with
        clocks := (c.clocks.discard (.frozen i)).2
        swapped := c.swapped.eraseIdx k
        discarded := i :: c.discarded } := by
  let c' : Sleeping κ :=
    { c with
      clocks := (c.clocks.discard (.frozen i)).2
      swapped := c.swapped.eraseIdx k
      discarded := i :: c.discarded }
  have hperm : (c'.timelines p).Perm (c.timelines p) := by
    rw [timelines, timelines, Clocks.source_discard]
    refine List.Perm.append_left _ (List.perm_middle.trans ?_)
    exact (perm_of_getElem? hk).symm.append_right c.discarded
  have hthis : c'.clocks.timeline (.frozen i) = (c.clocks.timeline (.frozen i)).discard.2 :=
    Clocks.timeline_discard c.clocks i
  have hother (j : Nat) (hj : j ≠ i) :
      c'.clocks.timeline (.frozen j) = c.clocks.timeline (.frozen j) :=
    Clocks.timeline_discard_ne c.clocks fun heq => hj (Source.frozen.inj heq)
  have hgone : ∀ e, e ∉ (c'.clocks.timeline (.frozen i)).queue := by
    rw [hthis]
    exact fun e => EventQueue.mem_clear
  refine ⟨fun j => ?_, hperm.nodup_iff.mpr h.nodup, fun j hj => ?_, fun s hs => ?_⟩
  · by_cases hj : j = i
    · rw [hj, hthis]
      exact (h.tended i).move (m := .discard) (by simp)
    · rw [hother j hj]
      exact h.tended j
  · exact h.knows j (hperm.mem_iff.mp hj)
  · have hplaced := h.placed s hs
    cases s with
    | loaded j d => exact hperm.mem_iff.mpr hplaced
    | waiting j id late =>
      obtain ⟨hmem, hid, hlate, hearly⟩ := hplaced
      by_cases hj : j = i
      · subst hj
        refine ⟨hperm.mem_iff.mpr hmem, ?_, fun _ => List.mem_cons_self, fun _ _ e he => ?_⟩
        · exact hthis ▸ hid
        · exact absurd he (hgone e)
      · refine ⟨hperm.mem_iff.mpr hmem, ?_, fun hl => List.mem_cons_of_mem i (hlate hl),
          fun he hdiscarded => ?_⟩ <;> rw [hother j hj]
        · exact hid
        · exact hearly he ((List.mem_cons.mp hdiscarded).resolve_left hj)

theorem Kept.load (h : Kept p c) {i : Nat} (hi : c.clocks.source p = .frozen i) (d : Delay) :
    Kept p { c with sleepers := c.sleepers ++ [.loaded i d] } := by
  refine ⟨h.tended, h.nodup, h.knows, fun s hs => ?_⟩
  obtain hs | hs := List.mem_append.mp hs
  · cases s <;> exact h.placed _ hs
  · rw [List.mem_singleton.mp hs]
    exact List.mem_append_left _ (Source.mem_number?.mpr hi)

theorem Kept.arm (h : Kept p c) {j i : Nat} {d : Delay} (hj : c.sleepers[j]? = some (.loaded i d)) :
    Kept p
      { c.update i ((c.clocks.timeline (.frozen i)).startTimer d .channel).2 with
        sleepers := c.sleepers.set j (.waiting i
          ((c.clocks.timeline (.frozen i)).startTimer d .channel).1
          (c.discarded.contains i)) } := by
  have hu : (c.clocks.timeline (.frozen i)).Allows (.start d .zero .channel) := trivial
  have h' := h.use (i := i) hu (by simp [Use.reset?])
  refine ⟨h'.tended, h'.nodup, h'.knows, fun s hs => ?_⟩
  obtain hs | rfl := List.mem_or_eq_of_mem_set hs
  · cases s <;> exact h'.placed _ hs
  · refine ⟨h'.placed _ (List.mem_of_getElem? hj), ?_, fun hlate => ?_, fun hearly hin => ?_⟩
    · show (c.clocks.timeline (.frozen i)).allocate.1 ≤
        ((c.update i _).clocks.timeline (.frozen i)).queue.lastId
      rw [timeline_update, if_pos rfl]
      exact Nat.le_of_eq (Timeline.lastId_start _ d .zero .channel).symm
    · exact (by simpa using hlate : i ∈ c.discarded)
    · simp only [List.contains_eq_mem, decide_eq_false_iff_not] at hearly
      exact absurd hin hearly

theorem Steps.kept (hs : Steps p c x c') (h : Kept p c) : Kept p c' := by
  cases hs with
  | idle x => exact h
  | load hi d => exact h.load hi d
  | arm hj => exact h.arm hj
  | freeze r => exact h.freeze r
  | unfreeze => exact h.unfreeze
  | discard hk => exact h.discard hk
  | use hi hu howns => exact h.use hu howns
  | move hi hm => exact h.move hm

theorem Kept.run (h : Kept p c) (xs : List (Action κ)) : Kept p (c.run p xs) := by
  induction xs generalizing c with
  | nil => exact h
  | cons x xs ih => exact ih ((steps_step p c x).kept h)

theorem kept_awake {c : Process κ} (h : c.Sane) (p : Nat) : Kept p (awake c.clocks) where
  tended := h.tended
  nodup := by
    show ((c.clocks.source p).number?.toList ++ ([] ++ [])).Nodup
    cases c.clocks.source p <;> simp [Source.number?]
  knows i hi := by
    have hsource : c.clocks.source p = .frozen i := by
      refine Source.mem_number?.mp ?_
      simpa [timelines, awake] using hi
    have hknown := h.source_known p
    rw [hsource] at hknown
    exact hknown
  placed s hs := by cases hs

/-! ### Sleeping on a discarded timeline -/

/-- A step that advances the timeline `i`, or that arms, stops or receives its event `id`. -/
def Action.Reaches (i id : Nat) : Action κ → Prop
  | .use j u => j = i ∧ (u.Handles id ∨ u = .call (.receive id))
  | .move j _ => j = i
  | _ => False

/-- The event `id` is pending on the timeline `i`, which was discarded before. -/
structure Stranded (i id : Nat) (c : Sleeping κ) : Prop where
  discarded : i ∈ c.discarded
  id_le : id ≤ (c.clocks.timeline (.frozen i)).queue.lastId
  asleep : c.Asleep i id

theorem Stranded.of_eq {i id : Nat} (h : Stranded i id c) (hdiscarded : i ∈ c'.discarded)
    (hsame : c'.clocks.timeline (.frozen i) = c.clocks.timeline (.frozen i)) :
    Stranded i id c' :=
  ⟨hdiscarded, hsame ▸ h.id_le, by rw [Asleep, hsame]; exact h.asleep⟩

theorem Stranded.use {i id : Nat} (h : Stranded i id c) {u : Use κ}
    (hvalid : (c.clocks.timeline (.frozen i)).queue.Valid)
    (hu : (c.clocks.timeline (.frozen i)).Allows u) (hhandles : ¬u.Handles id)
    (hreceive : u ≠ .call (.receive id)) (hdiscarded : i ∈ c'.discarded)
    (hsame : c'.clocks.timeline (.frozen i) = (c.clocks.timeline (.frozen i)).use u) :
    Stranded i id c' := by
  obtain ⟨hwaiting, hpending⟩ := Timeline.isReady_eq_false_iff.mp h.asleep
  refine ⟨hdiscarded, ?_, ?_⟩
  · rw [hsame]
    exact Nat.le_trans h.id_le (Timeline.lastId_le_use hvalid u)
  · rw [Asleep, hsame, Timeline.isReady_eq_false_iff]
    refine ⟨(Timeline.waiting_use hu hreceive).trans hwaiting, ?_⟩
    rw [← Timeline.isSome_event? (Timeline.valid_use hvalid u),
      Timeline.event?_use hvalid hu h.id_le hhandles, Timeline.isSome_event? hvalid]
    exact hpending

theorem Steps.stranded {i id : Nat} (hs : Steps p c x c') (hk : Kept p c) (h : Stranded i id c)
    (hx : ¬x.Reaches i id) : Stranded i id c' := by
  have hmem : i ∈ c.timelines p :=
    List.mem_append_right _ (List.mem_append_right _ h.discarded)
  have hvalid := (hk.tended i).valid
  have hother (j : Nat) (t : Timeline κ) (hj : j ≠ i) :
      (c.update j t).clocks.timeline (.frozen i) = c.clocks.timeline (.frozen i) := by
    rw [timeline_update, if_neg (Ne.symm hj)]
  have hthis (t : Timeline κ) : (c.update i t).clocks.timeline (.frozen i) = t := by
    rw [timeline_update, if_pos rfl]
  cases hs with
  | idle x => exact h
  | load hj d => exact h.of_eq h.discarded rfl
  | @arm k j d hk' =>
    by_cases hj : j = i
    · -- Another sleeper arms there, with an id of its own.
      subst hj
      exact h.use (u := .start d .zero .channel) hvalid trivial not_false (by simp) h.discarded
        (hthis _)
    · exact h.of_eq h.discarded (hother j _ hj)
  | freeze r =>
    refine h.of_eq h.discarded ((Clocks.timeline_swap _ p _ _).trans ?_)
    exact Clocks.timeline_newTimeline_ne _ _ (hk.knows i hmem).ne_new
  | unfreeze => exact h.of_eq h.discarded (Clocks.timeline_swap _ p _ _)
  | @discard k j hk' =>
    refine h.of_eq (List.mem_cons_of_mem j h.discarded) (Clocks.timeline_discard_ne _ ?_)
    intro heq
    obtain rfl : i = j := Source.frozen.inj heq
    have hdisjoint := (List.nodup_append.mp (List.nodup_append.mp hk.nodup).2.1).2.2
    exact hdisjoint i (List.mem_of_getElem? hk') i h.discarded rfl
  | @use j u hj hu howns =>
    by_cases hji : j = i
    · subst hji
      exact h.use hvalid hu (fun hhandles => hx ⟨rfl, .inl hhandles⟩)
        (fun hreceive => hx ⟨rfl, .inr hreceive⟩) h.discarded (hthis _)
    · exact h.of_eq h.discarded (hother j _ hji)
  | @move j m hj hm => exact h.of_eq h.discarded (hother j _ hx)

theorem Stranded.run {i id : Nat} (h : Stranded i id c) (hk : Kept p c) {xs : List (Action κ)}
    (hxs : ∀ x ∈ xs, ¬x.Reaches i id) : Stranded i id (c.run p xs) := by
  induction xs generalizing c with
  | nil => exact h
  | cons x xs ih =>
    rw [List.forall_mem_cons] at hxs
    have hs := steps_step p c x
    exact ih (hs.stranded hk h hxs.1) (hs.kept hk) hxs.2

/-- When no freeze is half done, a thread that sleeps has its event on the installed timeline,
unless it armed it after its timeline was discarded. In that case it sleeps on, whatever becomes of
the provider, until somebody advances the timeline that was discarded or takes its timer in hand. -/
theorem asleep_on_installed_iff {origin : Instant} {ys : List (Process.Action κ)} {c₀ : Process κ}
    (hrun : (Process.start origin).run ys = some c₀) (p : Nat) (xs : List (Action κ)) :
    let c := (awake c₀.clocks).run p xs
    c.swapped = [] → ∀ i id late, .waiting i id late ∈ c.sleepers → c.Asleep i id →
      (c.clocks.timeline (.frozen i)).queue.isPending id = true ∧
      (c.clocks.source p = .frozen i ↔ late = false) ∧
      (late = true → ∀ zs, (∀ z ∈ zs, ¬z.Reaches i id) → (c.run p zs).Asleep i id) := by
  intro c hswapped i id late hwaiting hasleep
  have hk : Kept p c := (kept_awake ((Process.sane_start origin).run hrun) p).run xs
  have hpending := (Timeline.isReady_eq_false_iff.mp hasleep).2
  obtain ⟨hmem, hid, hlate, hearly⟩ := hk.placed _ hwaiting
  have hnodup := hk.nodup
  rw [timelines, hswapped, List.nil_append] at hmem hnodup
  refine ⟨hpending, ?_, fun hl zs hzs => ?_⟩
  · cases late with
    | true =>
      refine iff_of_false (fun hsource => ?_) (by simp)
      have hdisjoint := (List.nodup_append.mp hnodup).2.2
      exact hdisjoint i (Source.mem_number?.mpr hsource) i (hlate rfl) rfl
    | false =>
      refine iff_of_true ?_ rfl
      obtain hsource | hdiscarded := List.mem_append.mp hmem
      · exact Source.mem_number?.mp hsource
      · obtain ⟨e, he, heq⟩ := (EventQueue.isPending_iff (hk.tended i).valid).mp hpending
        exact absurd heq (hearly rfl hdiscarded e he)
  · exact (Stranded.run ⟨hlate hl, hid, hasleep⟩ hk hzs).asleep

/-- A provider that is frozen at the epoch. -/
def frozenProvider : List (Process.Action Nat) :=
  [.newProvider .locked, .install 1 (some ⟨default, false⟩)]

/-- Another thread freezes the provider anew after a thread that is to sleep has loaded the timeline
and before it arms its timer. -/
def armedTooLate : List (Action Nat) :=
  [.load ⟨5⟩, .swap (some ⟨default, false⟩), .discard 0, .arm 0]

theorem run_armedTooLate {c₀ : Process Nat}
    (hrun : (Process.start default).run frozenProvider = some c₀) :
    let c := (awake c₀.clocks).run 1 armedTooLate
    c.swapped = [] ∧ c.sleepers = [.waiting 1 1 true] ∧ c.Asleep 1 1 ∧
      c.clocks.source 1 = .frozen 2 := by
  cases hrun
  exact ⟨rfl, rfl, rfl, rfl⟩

/-- No freeze is half done, and yet a thread sleeps on a timeline that is not installed. Its event
is not pending on the one that is. -/
theorem sleeps_on_discarded :
    ∃ c₀ : Process Nat, (Process.start default).run frozenProvider = some c₀ ∧
      c₀.clocks.source 1 = .frozen 1 ∧
      ∃ c : Sleeping Nat, (awake c₀.clocks).run 1 armedTooLate = c ∧ c.swapped = [] ∧
        .waiting 1 1 true ∈ c.sleepers ∧ c.Asleep 1 1 ∧ c.clocks.source 1 = .frozen 2 ∧
        (c.clocks.timeline (.frozen 2)).queue.isPending 1 = false := by
  obtain ⟨hswapped, hsleepers, hasleep, hsource⟩ := run_armedTooLate rfl
  refine ⟨_, rfl, rfl, _, rfl, hswapped, ?_, hasleep, hsource, rfl⟩
  rw [hsleepers]
  exact List.mem_singleton_self _

def advanceInstalled : List (Action Nat) :=
  let limit : Instant := ⟨10, by decide, by decide⟩
  [.move 2 (.popDue limit), .move 2 (.settle limit)]

/-- The thread sleeps on when somebody has advanced the provider past its deadline. -/
theorem asleep_on_installed_iff_armedTooLate :
    ∃ c₀ : Process Nat, (Process.start default).run frozenProvider = some c₀ ∧
      ∃ c : Sleeping Nat, (awake c₀.clocks).run 1 armedTooLate = c ∧
        (c.clocks.timeline (.frozen 1)).queue.isPending 1 = true ∧
        c.clocks.source 1 ≠ .frozen 1 ∧ (c.run 1 advanceInstalled).Asleep 1 1 := by
  obtain ⟨c₀, hrun⟩ : ∃ c₀ : Process Nat, (Process.start default).run frozenProvider = some c₀ :=
    ⟨_, rfl⟩
  obtain ⟨hswapped, hsleepers, hasleep, -⟩ := run_armedTooLate hrun
  have hwaiting : .waiting 1 1 true ∈ ((awake c₀.clocks).run 1 armedTooLate).sleepers := by
    rw [hsleepers]
    exact List.mem_singleton_self _
  obtain ⟨hpending, hiff, hlate⟩ :=
    asleep_on_installed_iff hrun 1 armedTooLate hswapped 1 1 true hwaiting hasleep
  refine ⟨c₀, hrun, _, rfl, hpending, fun hsource => ?_, hlate rfl advanceInstalled ?_⟩
  · exact Bool.noConfusion (hiff.mp hsource)
  · simp [advanceInstalled, Action.Reaches]

end Sleeping

end VirtualClock

import Mathlib.Data.List.Perm.Basic
import VirtualClock.Proofs.Timeline.Uses

/-! A timeline that any number of callers share. An advance has the timeline to itself for one
section at a time: it fixes its limit, it looks for a due event, and it settles in the end. Between
two of its sections, and while it delivers a firing, every other caller may take a turn. -/

namespace VirtualClock

/-- What an advance does next. -/
inductive Phase (κ : Type) where
  /-- It looks for a due event. -/
  | looking
  /-- It delivers a firing that it took off the queue. -/
  | delivering (f : Firing (Delivery κ))
  /-- It found nothing due, and settles. -/
  | settling

structure Underway (κ : Type) where
  limit : Instant
  phase : Phase κ

/-- The firing that an advance is delivering. -/
def Underway.firing? {κ : Type} (a : Underway κ) : Option (Firing (Delivery κ)) :=
  match a.phase with
  | .delivering f => some f
  | _ => none

/-- A timeline, and the advances that its callers are in. -/
structure Crowd (κ : Type) where
  timeline : Timeline κ
  advances : List (Underway κ) := []

/-- A turn of some caller. Advances are known by their place in the list. -/
inductive Turn (κ : Type) where
  | use (u : Use κ)
  /-- An advance by `d` begins and fixes its limit. -/
  | advance (d : Delay)
  /-- An advance takes a due event off the queue, or finds that there is none. -/
  | look (i : Nat)
  /-- A firing reaches its channel, or its callback returns. -/
  | deliver (i : Nat)
  /-- A callback panics, and its advance is left. -/
  | leave (i : Nat)
  /-- An advance that found nothing due settles on its limit and returns. -/
  | settle (i : Nat)
  /-- The timeline is replaced in its provider. -/
  | discard

theorem perm_of_getElem? {α : Type} {l : List α} {i : Nat} {a : α} (hi : l[i]? = some a) :
    l.Perm (a :: l.eraseIdx i) := by
  obtain ⟨hlt, rfl⟩ := List.getElem?_eq_some_iff.mp hi
  exact (List.getElem_cons_eraseIdx_perm hlt).symm

theorem Timeline.queue_handOver {κ : Type} (t : Timeline κ) (f : Firing (Delivery κ)) :
    (Solo.handOver t f).queue = t.queue := by
  unfold Solo.handOver
  split <;> rfl

namespace Crowd

variable {κ : Type}

/-- A fresh timeline at `at_`, which nobody advances. -/
def start (at_ : Reading) : Crowd κ := { timeline := .start at_ }

/-- The state after a turn. A turn that nobody can take changes nothing. -/
def turn (c : Crowd κ) : Turn κ → Crowd κ
  | .use u => if c.timeline.Allows u then { c with timeline := c.timeline.use u } else c
  | .advance d => { c with advances := c.advances ++ [⟨c.timeline.limit d, .looking⟩] }
  | .look i =>
    match c.advances[i]? with
    | some ⟨limit, .looking⟩ =>
      match c.timeline.popDue limit with
      | some (f, t) => ⟨t, c.advances.set i ⟨limit, .delivering f⟩⟩
      | none => { c with advances := c.advances.set i ⟨limit, .settling⟩ }
    | _ => c
  | .deliver i =>
    match c.advances[i]? with
    | some ⟨limit, .delivering f⟩ =>
      ⟨Solo.handOver c.timeline f, c.advances.set i ⟨limit, .looking⟩⟩
    | _ => c
  | .leave i =>
    match c.advances[i]? with
    | some ⟨_, .delivering ⟨_, _, .callback _⟩⟩ => { c with advances := c.advances.eraseIdx i }
    | _ => c
  | .settle i =>
    match c.advances[i]? with
    | some ⟨limit, .settling⟩ => ⟨c.timeline.settle limit, c.advances.eraseIdx i⟩
    | _ => c
  | .discard => { c with timeline := c.timeline.discard.2 }

def turns (c : Crowd κ) (xs : List (Turn κ)) : Crowd κ := xs.foldl turn c

/-- The firing that a turn takes off the queue. -/
def fired? (c : Crowd κ) : Turn κ → Option (Firing (Delivery κ))
  | .look i =>
    match c.advances[i]? with
    | some ⟨limit, .looking⟩ => (c.timeline.popDue limit).map (·.1)
    | _ => none
  | _ => none

/-- The firings that were taken off the queue and have not been delivered. -/
def flying (c : Crowd κ) : List (Firing (Delivery κ)) := c.advances.filterMap (·.firing?)

@[simp] theorem turns_nil (c : Crowd κ) : c.turns [] = c := rfl

@[simp] theorem turns_cons (c : Crowd κ) (x : Turn κ) (xs : List (Turn κ)) :
    c.turns (x :: xs) = (c.turn x).turns xs := rfl

theorem turns_append (c : Crowd κ) (xs ys : List (Turn κ)) :
    c.turns (xs ++ ys) = (c.turns xs).turns ys := List.foldl_append

theorem turn_use {c : Crowd κ} {u : Use κ} (hu : c.timeline.Allows u) :
    c.turn (.use u) = { c with timeline := c.timeline.use u } := if_pos hu

inductive Steps (c : Crowd κ) : Turn κ → Crowd κ → Prop where
  /-- Nobody can take it. -/
  | idle (x : Turn κ) (hfired : c.fired? x = none) (huse : ∀ u, x = .use u → ¬c.timeline.Allows u)
      (hdiscard : x ≠ .discard) : Steps c x c
  | use {u : Use κ} (hu : c.timeline.Allows u) :
      Steps c (.use u) { c with timeline := c.timeline.use u }
  | advance (d : Delay) :
      Steps c (.advance d) { c with advances := c.advances ++ [⟨c.timeline.limit d, .looking⟩] }
  | pop {i : Nat} {limit : Instant} {f : Firing (Delivery κ)} {t : Timeline κ}
      (hi : c.advances[i]? = some ⟨limit, .looking⟩) (hp : c.timeline.popDue limit = some (f, t)) :
      Steps c (.look i) ⟨t, c.advances.set i ⟨limit, .delivering f⟩⟩
  | rest {i : Nat} {limit : Instant} (hi : c.advances[i]? = some ⟨limit, .looking⟩)
      (hp : c.timeline.popDue limit = none) :
      Steps c (.look i) { c with advances := c.advances.set i ⟨limit, .settling⟩ }
  | deliver {i : Nat} {limit : Instant} {f : Firing (Delivery κ)}
      (hi : c.advances[i]? = some ⟨limit, .delivering f⟩) :
      Steps c (.deliver i) ⟨Solo.handOver c.timeline f, c.advances.set i ⟨limit, .looking⟩⟩
  | leave {i : Nat} {limit : Instant} {f : Firing (Delivery κ)} {k : κ}
      (hi : c.advances[i]? = some ⟨limit, .delivering f⟩) (hk : f.deliver = .callback k) :
      Steps c (.leave i) { c with advances := c.advances.eraseIdx i }
  | settle {i : Nat} {limit : Instant} (hi : c.advances[i]? = some ⟨limit, .settling⟩) :
      Steps c (.settle i) ⟨c.timeline.settle limit, c.advances.eraseIdx i⟩
  | discard : Steps c .discard { c with timeline := c.timeline.discard.2 }

theorem steps_turn (c : Crowd κ) (x : Turn κ) : Steps c x (c.turn x) := by
  cases x with
  | use u =>
    rw [turn]
    split
    · rename_i hu
      exact .use hu
    · rename_i hu
      refine .idle _ rfl (fun u' heq => ?_) (by simp)
      cases heq
      exact hu
  | advance d => exact .advance d
  | look i =>
    cases hi : c.advances[i]? with
    | none =>
      rw [turn, hi]
      exact .idle _ (by rw [fired?, hi]) (by simp) (by simp)
    | some a =>
      obtain ⟨limit, phase⟩ := a
      cases phase with
      | looking =>
        cases hp : c.timeline.popDue limit with
        | none =>
          simp only [turn, hi, hp]
          exact .rest hi hp
        | some p =>
          simp only [turn, hi, hp]
          exact .pop hi hp
      | _ =>
        rw [turn, hi]
        exact .idle _ (by rw [fired?, hi]) (by simp) (by simp)
  | deliver i =>
    rw [turn]
    split
    · rename_i hi
      exact .deliver hi
    · exact .idle _ rfl (by simp) (by simp)
  | leave i =>
    rw [turn]
    split
    · rename_i hi
      exact .leave hi rfl
    · exact .idle _ rfl (by simp) (by simp)
  | settle i =>
    rw [turn]
    split
    · rename_i hi
      exact .settle hi
    · exact .idle _ rfl (by simp) (by simp)
  | discard => exact .discard

/-! ### What is on its way -/

theorem perm_set {α : Type} {l : List α} {i : Nat} {a : α} (hi : l[i]? = some a) (b : α) :
    (l.set i b).Perm (b :: l.eraseIdx i) :=
  List.set_perm_cons_eraseIdx (List.getElem?_eq_some_iff.mp hi).1 b

/-- The firing of an advance that ends is on its way no more. -/
theorem flying_eraseIdx {c : Crowd κ} {i : Nat} {a : Underway κ} (hi : c.advances[i]? = some a)
    (t : Timeline κ) :
    c.flying.Perm (a.firing?.toList ++ (⟨t, c.advances.eraseIdx i⟩ : Crowd κ).flying) := by
  refine ((perm_of_getElem? hi).filterMap Underway.firing?).trans (.of_eq ?_)
  cases h : a.firing? <;> simp [flying, h]

/-- An advance that goes on brings along what it delivers then, and no more what it delivered. -/
theorem flying_set {c : Crowd κ} {i : Nat} {a : Underway κ} (hi : c.advances[i]? = some a)
    (t : Timeline κ) (b : Underway κ) :
    (b.firing?.toList ++ c.flying).Perm
      (a.firing?.toList ++ (⟨t, c.advances.set i b⟩ : Crowd κ).flying) := by
  have hset : (⟨t, c.advances.set i b⟩ : Crowd κ).flying.Perm
      (b.firing?.toList ++ (⟨t, c.advances.eraseIdx i⟩ : Crowd κ).flying) := by
    refine ((perm_set hi b).filterMap Underway.firing?).trans (.of_eq ?_)
    cases h : b.firing? <;> simp [flying, h]
  refine ((flying_eraseIdx hi t).append_left _).trans (.trans ?_ (hset.symm.append_left _))
  rw [← List.append_assoc, ← List.append_assoc]
  exact List.perm_append_comm.append_right _

theorem Steps.valid {c c' : Crowd κ} {x : Turn κ} (hs : Steps c x c')
    (h : c.timeline.queue.Valid) : c'.timeline.queue.Valid := by
  cases hs with
  | idle x hfired huse hdiscard => exact h
  | use hu => exact Timeline.valid_use h _
  | @pop i limit f t hi hp =>
    have hmove : c.timeline.move (.popDue limit) = t := by rw [Timeline.move, hp]; rfl
    exact hmove ▸ Timeline.valid_move h (.popDue limit)
  | @deliver i limit f hi =>
    rw [Timeline.queue_handOver]
    exact h
  | discard => exact EventQueue.valid_clear c.timeline.queue
  | _ => exact h

theorem valid_turns {c : Crowd κ} (h : c.timeline.queue.Valid) (xs : List (Turn κ)) :
    (c.turns xs).timeline.queue.Valid := by
  induction xs generalizing c with
  | nil => exact h
  | cons x xs ih => exact ih ((steps_turn c x).valid h)

/-! ### What turns do to the timeline -/

/-- The moves of a turn. -/
def made (c : Crowd κ) : Turn κ → List (Move κ)
  | .use u => if c.timeline.Allows u then c.timeline.useMoves u else []
  | .look i =>
    match c.advances[i]? with
    | some ⟨limit, .looking⟩ => [.popDue limit]
    | _ => []
  | .deliver i =>
    match c.advances[i]? with
    | some ⟨_, .delivering ⟨id, at_, .channel⟩⟩ => [.send id at_]
    | _ => []
  | .settle i =>
    match c.advances[i]? with
    | some ⟨limit, .settling⟩ => [.settle limit]
    | _ => []
  | .discard => [.discard]
  | .advance _ | .leave _ => []

/-- The moves of some turns. -/
def story (c : Crowd κ) : List (Turn κ) → List (Move κ)
  | [] => []
  | x :: xs => c.made x ++ (c.turn x).story xs

/-- What the callers of a timeline do to it is a row of moves. -/
theorem timeline_turn (c : Crowd κ) (x : Turn κ) :
    (c.turn x).timeline = c.timeline.moves (c.made x) := by
  cases x with
  | use u =>
    rw [turn, made]
    split
    · exact c.timeline.use_eq_moves u
    · rfl
  | look i =>
    rw [turn, made]
    split
    · rename_i limit hi
      rw [Timeline.moves_cons, Timeline.moves_nil, Timeline.move]
      cases c.timeline.popDue limit <;> rfl
    · rfl
  | deliver i =>
    rw [turn, made]
    cases c.advances[i]? with
    | none => rfl
    | some a =>
      obtain ⟨limit, looking | ⟨⟨id, at_, channel | k⟩⟩ | settling⟩ := a <;> rfl
  | leave i =>
    rw [turn]
    split <;> rfl
  | settle i =>
    rw [turn, made]
    split <;> rfl
  | _ => rfl

theorem timeline_turns (c : Crowd κ) (xs : List (Turn κ)) :
    (c.turns xs).timeline = c.timeline.moves (c.story xs) := by
  induction xs generalizing c with
  | nil => rfl
  | cons x xs ih => rw [turns_cons, ih, timeline_turn, story, Timeline.moves_append]

end Crowd

end VirtualClock

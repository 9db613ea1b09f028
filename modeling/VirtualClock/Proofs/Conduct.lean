import VirtualClock.Advance

/-! Programs that a machine follows. A program acts on a large state; a machine takes small steps
beside it, and is at a place of its own, such as the advances that it is in the middle of. Where the
steps of a machine follow what callbacks do, they follow all that is made of callbacks, and the
advances that call them. What the steps are does not matter for that: it is enough that they lead
from each section of an advance to the next. -/

namespace VirtualClock

namespace Act

variable {ε σ α β : Type}

theorem bind_apply (x : ExceptT ε (StateM σ) α) (f : α → ExceptT ε (StateM σ) β) (s : σ) :
    (x >>= f) s = match x s with
      | (.ok a, s') => f a s'
      | (.error e, s') => (.error e, s') := by
  show (match x s with | (r, s') => ExceptT.bindCont f r s') = _
  obtain ⟨r, s'⟩ := x s
  cases r <;> rfl

theorem bind_of_ok {x : ExceptT ε (StateM σ) α} {f : α → ExceptT ε (StateM σ) β} {s s' : σ} {a : α}
    (h : x s = (.ok a, s')) : (x >>= f) s = f a s' := by
  rw [bind_apply, h]

/-- A sequence returns when both of its parts do. -/
theorem bind_eq_ok {x : ExceptT ε (StateM σ) α} {f : α → ExceptT ε (StateM σ) β} {s s' : σ}
    {b : β} : (x >>= f) s = (.ok b, s') ↔ ∃ a s₁, x s = (.ok a, s₁) ∧ f a s₁ = (.ok b, s') := by
  rw [bind_apply]
  obtain ⟨r, s₁⟩ := x s
  constructor
  · intro h
    cases r with
    | error e => cases h
    | ok a => exact ⟨a, s₁, rfl, h⟩
  · rintro ⟨a, s₂, hx, hf⟩
    cases hx
    exact hf

theorem pure_apply (a : α) (s : σ) : (pure a : ExceptT ε (StateM σ) α) s = (.ok a, s) := rfl

theorem get_apply (s : σ) : (get : ExceptT ε (StateM σ) σ) s = (.ok s, s) := rfl

theorem modify_apply (f : σ → σ) (s : σ) :
    (modify f : ExceptT ε (StateM σ) Unit) s = (.ok (), f s) := rfl

end Act

/-! ### The sections of an advance -/

namespace Site

variable {σ κ : Type} {site : Site σ κ}

theorem fire_of_none (site : Site σ κ) {call : κ → Act σ Unit} {limit : Instant} {s : σ}
    (hp : (site.timeline s).popDue limit = none) (fuel fired : Nat) :
    site.fire call limit (fuel + 1) fired s = (.ok fired, s) := by
  simp only [fire, hp]

theorem fire_of_error (site : Site σ κ) {call : κ → Act σ Unit} {limit : Instant} {s s' : σ}
    {f : Firing (Delivery κ)} {t : Timeline κ} {stop : Stop}
    (hp : (site.timeline s).popDue limit = some (f, t))
    (hd : site.deliver call f f.at_ (site.record (site.firing f) (site.update t s)) =
      (.error stop, s')) (fuel fired : Nat) :
    site.fire call limit (fuel + 1) fired s = (.error stop, s') := by
  simp only [fire, hp, hd]

theorem fire_of_ok (site : Site σ κ) {call : κ → Act σ Unit} {limit : Instant} {s s' : σ}
    {f : Firing (Delivery κ)} {t : Timeline κ}
    (hp : (site.timeline s).popDue limit = some (f, t))
    (hd : site.deliver call f f.at_ (site.record (site.firing f) (site.update t s)) =
      (.ok (), s')) (fuel fired : Nat) :
    site.fire call limit (fuel + 1) fired s = site.fire call limit fuel (fired + 1) s' := by
  simp only [fire, hp, hd]

theorem deliver_of_channel (site : Site σ κ) (call : κ → Act σ Unit) {f : Firing (Delivery κ)}
    (hto : f.deliver = .channel) (value : Instant) (s : σ) :
    site.deliver call f value s = (.ok (), site.update ((site.timeline s).send f.id value) s) := by
  simp only [deliver, hto]

theorem deliver_of_callback (site : Site σ κ) (call : κ → Act σ Unit) {f : Firing (Delivery κ)}
    {k : κ} (hto : f.deliver = .callback k) (value : Instant) (s : σ) :
    site.deliver call f value s = call k s := by
  simp only [deliver, hto]

/-- What every turn of the loop keeps, the loop keeps, however it ends. If it returns, nothing is
left that is due. -/
theorem fire_keeps (site : Site σ κ) (call : κ → Act σ Unit) {limit : Instant} {P : σ → Prop}
    (hturn : ∀ s f t, P s → (site.timeline s).popDue limit = some (f, t) →
      P (site.deliver call f f.at_ (site.record (site.firing f) (site.update t s))).2)
    (fuel fired : Nat) {s : σ} (hs : P s) :
    P (site.fire call limit fuel fired s).2 ∧
      ∀ n, (site.fire call limit fuel fired s).1 = .ok n →
        (site.timeline (site.fire call limit fuel fired s).2).popDue limit = none := by
  induction fuel generalizing fired s with
  | zero => exact ⟨hs, fun n h => by cases h⟩
  | succ fuel ih =>
    cases hp : (site.timeline s).popDue limit with
    | none =>
      rw [fire_of_none site hp]
      exact ⟨hs, fun _ _ => hp⟩
    | some p =>
      obtain ⟨f, t⟩ := p
      have hnext := hturn s f t hs hp
      obtain ⟨r, s', hd⟩ : ∃ r s', site.deliver call f f.at_
          (site.record (site.firing f) (site.update t s)) = (r, s') := ⟨_, _, rfl⟩
      rw [hd] at hnext
      cases r with
      | error stop =>
        rw [fire_of_error site hp hd]
        exact ⟨hnext, fun n h => by cases h⟩
      | ok _ =>
        rw [fire_of_ok site hp hd]
        exact ih (fired + 1) hnext

/-- The state in which an advance looks for what is due: a negative one was noted. -/
def entered (site : Site σ κ) (d : Delay) (s : σ) : σ :=
  if d.nanos < 0 then site.record (ignored d) s else s

theorem timeline_entered (d : Delay) (s : σ) :
    site.timeline (site.entered d s) = site.timeline s := by
  unfold entered
  split
  · exact site.timeline_record _ s
  · rfl

/-- What log events keep, the begin of an advance keeps. -/
theorem entered_keeps (site : Site σ κ) {P : σ → Prop} (hrecord : ∀ e s, P s → P (site.record e s))
    (d : Delay) {s : σ} (hs : P s) : P (site.entered d s) := by
  unfold entered
  split
  · exact hrecord _ s hs
  · exact hs

/-- The state in which an advance returns that found nothing left to fire in `s`. -/
def settled (site : Site σ κ) (d : Delay) (limit : Instant) (fired : Nat) (s : σ) : σ :=
  let t := (site.timeline s).settle limit
  site.record (advanced d.clamp fired t.pending) (site.update t s)

theorem timeline_settled (d : Delay) (limit : Instant) (fired : Nat) (s : σ) :
    site.timeline (site.settled d limit fired s) = (site.timeline s).settle limit := by
  rw [settled, site.timeline_record, site.timeline_update]

/-- An advance in one step: what is due is fired, and then time settles on the limit. -/
theorem advance_apply (site : Site σ κ) (call : κ → Act σ Unit) (fuel : Nat) (d : Delay) (s : σ) :
    site.advance call fuel d s =
      match site.fire call ((site.timeline s).limit d) fuel 0 (site.entered d s) with
      | (.error stop, s') => (.error stop, s')
      | (.ok fired, s') =>
        let t := (site.timeline s').settle ((site.timeline s).limit d)
        (.ok t.elapsed, site.record (advanced d.clamp fired t.pending) (site.update t s')) := by
  have hbody (s₁ : σ) : (do
      let limit := (site.timeline (← get)).limit d
      let fired ← site.fire call limit fuel 0
      modify fun s => site.update ((site.timeline s).settle limit) s
      let t := site.timeline (← get)
      modify (site.record (advanced d.clamp fired t.pending))
      return t.elapsed : Act σ Delay) s₁ =
      match site.fire call ((site.timeline s₁).limit d) fuel 0 s₁ with
      | (.error stop, s') => (.error stop, s')
      | (.ok fired, s') =>
        let t := (site.timeline s').settle ((site.timeline s₁).limit d)
        (.ok t.elapsed, site.record (advanced d.clamp fired t.pending) (site.update t s')) := by
    simp only [Act.bind_apply, Act.get_apply, Act.modify_apply, Act.pure_apply]
    obtain ⟨r, s'⟩ := site.fire call ((site.timeline s₁).limit d) fuel 0 s₁
    cases r with
    | error stop => rfl
    | ok fired => simp only [site.timeline_update]
  have hs : site.timeline (site.entered d s) = site.timeline s := timeline_entered d s
  rw [← hs, ← hbody, entered]
  by_cases hneg : d.nanos < 0
  · simp only [advance, if_pos hneg]
    rfl
  · simp only [advance, if_neg hneg]

/-- What log events, changes of the timeline and callbacks keep, an advance keeps. -/
theorem advance_keeps (site : Site σ κ) (call : κ → Act σ Unit) {P : σ → Prop}
    (hupdate : ∀ t s, P s → P (site.update t s)) (hrecord : ∀ e s, P s → P (site.record e s))
    (hcall : ∀ k s, P s → P (call k s).2) (fuel : Nat) (d : Delay) {s : σ} (hs : P s) :
    P (site.advance call fuel d s).2 := by
  have hturn (s₁ : σ) (f : Firing (Delivery κ)) (t : Timeline κ) (h₁ : P s₁)
      (_ : (site.timeline s₁).popDue ((site.timeline s).limit d) = some (f, t)) :
      P (site.deliver call f f.at_ (site.record (site.firing f) (site.update t s₁))).2 := by
    have h₂ := hrecord (site.firing f) _ (hupdate t s₁ h₁)
    unfold deliver
    cases f.deliver with
    | channel => exact hupdate _ _ h₂
    | callback k => exact hcall k _ h₂
  have hfire := (fire_keeps site call hturn fuel 0 (entered_keeps site hrecord d hs)).1
  rw [advance_apply]
  obtain ⟨r, s', heq⟩ : ∃ r s', site.fire call ((site.timeline s).limit d) fuel 0
      (site.entered d s) = (r, s') := ⟨_, _, rfl⟩
  rw [heq] at hfire ⊢
  cases r with
  | error stop => exact hfire
  | ok fired => exact hrecord _ _ (hupdate _ _ hfire)

end Site

/-! ### Machines -/

/-- The conduct of a machine beside the states of a program. -/
structure Conduct (σ ρ : Type) where
  /-- Steps of the machine lead from the place `r` and the state `s` to the place `r'` and the state
  `s'`. -/
  Leads (r : ρ) (s : σ) (r' : ρ) (s' : σ) : Prop
  /-- Whether the machine follows a program that ends early for this reason. -/
  Follows : Stop → Prop
  refl : ∀ r s, Leads r s r s
  trans : ∀ {r r' r'' s s' s''}, Leads r s r' s' → Leads r' s' r'' s'' → Leads r s r'' s''

namespace Conduct

variable {σ ρ κ α β : Type} {c : Conduct σ ρ} {r r' r'' home : ρ} {s s' : σ}

/-- A part of a program begins at the place `r` in the state `s` and ends with `z`: the machine
comes to the place `r'` if it returns, and to `home` if it ends early. -/
structure ComesOut (c : Conduct σ ρ) (r : ρ) (s : σ) (r' home : ρ) (z : Except Stop α × σ) :
    Prop where
  returned : ∀ a, z.1 = .ok a → c.Leads r s r' z.2
  stopped : ∀ stop, z.1 = .error stop → c.Follows stop → c.Leads r s home z.2

/-- The machine follows `x` from every place, and is back there when `x` ends. -/
def Acts (c : Conduct σ ρ) (x : Act σ α) : Prop := ∀ r s, c.ComesOut r s r r (x s)

theorem acts_iff {x : Act σ α} : c.Acts x ↔
    ∀ r s, (∀ stop, (x s).1 = .error stop → c.Follows stop) → c.Leads r s r (x s).2 := by
  constructor
  · intro h r s hfollows
    cases hx : (x s).1 with
    | ok a => exact (h r s).returned a hx
    | error stop => exact (h r s).stopped stop hx (hfollows stop hx)
  · intro h r s
    refine ⟨fun a ha => h r s fun stop hstop => ?_, fun stop hstop hfollows => ?_⟩
    · cases ha.symm.trans hstop
    · refine h r s fun stop' hstop' => ?_
      cases hstop.symm.trans hstop'
      exact hfollows

theorem ComesOut.after {z : Except Stop α × σ} (h : c.Leads r s r' s')
    (hz : c.ComesOut r' s' r'' home z) : c.ComesOut r s r'' home z where
  returned a ha := c.trans h (hz.returned a ha)
  stopped stop hstop hfollows := c.trans h (hz.stopped stop hstop hfollows)

theorem ComesOut.bind {x : Act σ α} {f : α → Act σ β} (hx : c.ComesOut r s r' home (x s))
    (hf : ∀ a s', c.ComesOut r' s' r'' home (f a s')) :
    c.ComesOut r s r'' home ((x >>= f) s) := by
  rw [Act.bind_apply]
  obtain ⟨result, s', hxs⟩ : ∃ result s', x s = (result, s') := ⟨_, _, rfl⟩
  rw [hxs] at hx ⊢
  cases result with
  | ok a => exact (hf a s').after (hx.returned a rfl)
  | error stop =>
    refine ⟨fun _ h => (by cases h), fun stop' hstop => ?_⟩
    cases hstop
    exact hx.stopped stop rfl

theorem acts_pure (a : α) : c.Acts (pure a) :=
  fun r s => ⟨fun _ _ => c.refl r s, fun _ h => by cases h⟩

theorem acts_throw (stop : Stop) : c.Acts (throw stop : Act σ α) :=
  fun r s => ⟨fun _ h => (by cases h), fun _ _ _ => c.refl r s⟩

theorem acts_modify {f : σ → σ} (h : ∀ r s, c.Leads r s r (f s)) : c.Acts (modify f) :=
  fun r s => ⟨fun _ _ => h r s, fun _ h => by cases h⟩

theorem Acts.bind {x : Act σ α} {f : α → Act σ β} (hx : c.Acts x) (hf : ∀ a, c.Acts (f a)) :
    c.Acts (x >>= f) :=
  fun r s => (hx r s).bind fun a => hf a r

theorem acts_mapM {f : α → Act σ β} {l : List α} (hf : ∀ a ∈ l, c.Acts (f a)) :
    c.Acts (l.mapM f) := by
  induction l with
  | nil => exact acts_pure _
  | cons a l ih =>
    rw [List.mapM_cons]
    refine (hf a List.mem_cons_self).bind fun _ => ?_
    exact (ih fun b hb => hf b (List.mem_cons_of_mem a hb)).bind fun _ => acts_pure _

theorem acts_forIn {f : α → β → Act σ (ForInStep β)} {l : List α}
    (hf : ∀ a ∈ l, ∀ b, c.Acts (f a b)) (b : β) : c.Acts (forIn l b f) := by
  induction l generalizing b with
  | nil => exact acts_pure _
  | cons a l ih =>
    rw [List.forIn_cons]
    refine (hf a List.mem_cons_self b).bind fun step => ?_
    cases step with
    | done b => exact acts_pure _
    | yield b => exact ih (fun a' ha' => hf a' (List.mem_cons_of_mem a ha')) b

/-! ### Advances -/

/-- The machine follows the sections of an advance up to `limit`, which it began at `home`. It looks
for what is due at `looking`, and a callback acts while it is at `calling f`. -/
structure Loops (c : Conduct σ ρ) (site : Site σ κ) (limit : Instant) (home looking : ρ)
    (calling : Firing (Delivery κ) → ρ) : Prop where
  send : ∀ {s f t}, (site.timeline s).popDue limit = some (f, t) → f.deliver = .channel →
    c.Leads looking s looking (site.update
      ((site.timeline (site.record (site.firing f) (site.update t s))).send f.id f.at_)
      (site.record (site.firing f) (site.update t s)))
  call : ∀ {s f t k}, (site.timeline s).popDue limit = some (f, t) → f.deliver = .callback k →
    c.Leads looking s (calling f) (site.record (site.firing f) (site.update t s))
  back : ∀ {f k} (s : σ), f.deliver = .callback k → c.Leads (calling f) s looking s
  leave : ∀ {f k stop} (s : σ), f.deliver = .callback k → c.Follows stop →
    c.Leads (calling f) s home s
  exhausted : ∀ s : σ, c.Follows .outOfFuel → c.Leads looking s home s

variable {site : Site σ κ} {call : κ → Act σ Unit} {limit : Instant} {looking : ρ}
  {calling : Firing (Delivery κ) → ρ}

/-- One turn of the loop: what is due is taken off the queue and delivered. -/
theorem Loops.turn (h : c.Loops site limit home looking calling) (hcall : ∀ k, c.Acts (call k))
    {f : Firing (Delivery κ)} {t : Timeline κ}
    (hp : (site.timeline s).popDue limit = some (f, t)) :
    c.ComesOut looking s looking home
      (site.deliver call f f.at_ (site.record (site.firing f) (site.update t s))) := by
  cases hto : f.deliver with
  | channel =>
    rw [site.deliver_of_channel call hto]
    exact ⟨fun _ _ => h.send hp hto, fun _ h => by cases h⟩
  | callback k =>
    rw [site.deliver_of_callback call hto]
    have hout := hcall k (calling f) (site.record (site.firing f) (site.update t s))
    refine .after (h.call hp hto) ⟨fun a ha => ?_, fun stop hstop hfollows => ?_⟩
    · exact c.trans (hout.returned a ha) (h.back _ hto)
    · exact c.trans (hout.stopped stop hstop hfollows) (h.leave _ hto hfollows)

/-- The loop of an advance: it goes on while something is due, unless a callback leaves it. -/
theorem Loops.fire (h : c.Loops site limit home looking calling) (hcall : ∀ k, c.Acts (call k))
    (fuel fired : Nat) (s : σ) :
    c.ComesOut looking s looking home (site.fire call limit fuel fired s) := by
  induction fuel generalizing fired s with
  | zero =>
    refine ⟨fun _ h => (by cases h), fun stop hstop hfollows => ?_⟩
    cases hstop
    exact h.exhausted s hfollows
  | succ fuel ih =>
    cases hp : (site.timeline s).popDue limit with
    | none =>
      rw [Site.fire_of_none site hp]
      exact ⟨fun _ _ => c.refl looking s, fun _ h => by cases h⟩
    | some p =>
      obtain ⟨f, t⟩ := p
      have hturn := h.turn hcall hp
      obtain ⟨result, s₁, hd⟩ : ∃ result s₁, site.deliver call f f.at_
          (site.record (site.firing f) (site.update t s)) = (result, s₁) := ⟨_, _, rfl⟩
      rw [hd] at hturn
      cases result with
      | error stop =>
        rw [Site.fire_of_error site hp hd]
        refine ⟨fun _ h => (by cases h), fun stop' hstop => ?_⟩
        cases hstop
        exact hturn.stopped stop rfl
      | ok _ =>
        rw [Site.fire_of_ok site hp hd]
        exact (ih (fired + 1) s₁).after (hturn.returned () rfl)

/-- An advance from where it looks for what is due. If it returns, the machine comes to where
nothing is left that is due, and the advance settles there; if it ends early, the machine is back at
`home`. -/
theorem Loops.advance {d : Delay}
    (h : c.Loops site ((site.timeline s).limit d) home looking calling)
    (hcall : ∀ k, c.Acts (call k)) (fuel : Nat) :
    (∀ result, (site.advance call fuel d s).1 = .ok result →
      ∃ fired s', c.Leads looking (site.entered d s) looking s' ∧
        (site.timeline s').popDue ((site.timeline s).limit d) = none ∧
        site.advance call fuel d s =
          (.ok ((site.timeline s').settle ((site.timeline s).limit d)).elapsed,
            site.settled d ((site.timeline s).limit d) fired s')) ∧
    ∀ stop, (site.advance call fuel d s).1 = .error stop → c.Follows stop →
      c.Leads looking (site.entered d s) home (site.advance call fuel d s).2 := by
  have hout := h.fire hcall fuel 0 (site.entered d s)
  have hdone : ∀ n, (site.fire call ((site.timeline s).limit d) fuel 0 (site.entered d s)).1 = .ok n →
      (site.timeline (site.fire call ((site.timeline s).limit d) fuel 0
        (site.entered d s)).2).popDue ((site.timeline s).limit d) = none :=
    (site.fire_keeps call (P := fun _ => True) (fun _ _ _ _ _ => trivial) fuel 0 trivial).2
  rw [site.advance_apply call fuel d s]
  obtain ⟨result, s', hfire⟩ : ∃ result s', site.fire call ((site.timeline s).limit d) fuel 0
      (site.entered d s) = (result, s') := ⟨_, _, rfl⟩
  rw [hfire] at hout hdone ⊢
  cases result with
  | error stop =>
    refine ⟨fun _ h => (by cases h), fun stop' hstop => ?_⟩
    cases hstop
    exact hout.stopped stop rfl
  | ok fired =>
    exact ⟨fun _ _ => ⟨fired, s', hout.returned fired rfl, hdone fired rfl, rfl⟩,
      fun _ h => by cases h⟩

end Conduct

end VirtualClock

import VirtualClock.Proofs.Advance

/-! The turns that the loop of an advance takes. An advance that returns has a finite list of
firings, and returns alike on every fuel that exceeds it. -/

namespace VirtualClock.Site

variable {σ κ : Type} {site : Site σ κ} {call : κ → Act σ Unit} {limit : Instant}

/-- What falls due up to `limit` is fired from `s` on until nothing is left in `s'`. Every firing
comes with the state in which its delivery ends. -/
inductive Fires (site : Site σ κ) (call : κ → Act σ Unit) (limit : Instant) :
    σ → List (Firing (Delivery κ) × σ) → σ → Prop where
  | done {s : σ} (hp : (site.timeline s).popDue limit = none) : Fires site call limit s [] s
  | turn {s s₁ s' : σ} {f : Firing (Delivery κ)} {t : Timeline κ}
      {fs : List (Firing (Delivery κ) × σ)}
      (hp : (site.timeline s).popDue limit = some (f, t))
      (hd : site.deliver call f f.at_ (site.record (site.firing f) (site.update t s)) =
        (.ok (), s₁))
      (rest : Fires site call limit s₁ fs s') : Fires site call limit s ((f, s₁) :: fs) s'

/-- The state in which `e`, which was due in `s`, is delivered. -/
def called (site : Site σ κ) (e : Event (Delivery κ)) (s : σ) : σ :=
  site.record (site.firing e.firing) (site.update ((site.timeline s).popped e) s)

theorem timeline_called (site : Site σ κ) (e : Event (Delivery κ)) (s : σ) :
    site.timeline (site.called e s) = (site.timeline s).popped e := by
  rw [called, site.timeline_record, site.timeline_update]

theorem Fires.popDue_eq_none {s s' : σ} {fs : List (Firing (Delivery κ) × σ)}
    (h : Fires site call limit s fs s') : (site.timeline s').popDue limit = none := by
  induction h with
  | done hp => exact hp
  | turn _ _ _ ih => exact ih

theorem Fires.fire {s s' : σ} {fs : List (Firing (Delivery κ) × σ)}
    (h : Fires site call limit s fs s') {fuel : Nat} (hfuel : fs.length < fuel) (n : Nat) :
    site.fire call limit fuel n s = (.ok (n + fs.length), s') := by
  induction h generalizing fuel n with
  | done hp =>
    cases fuel with
    | zero => cases hfuel
    | succ fuel => exact fire_of_none site hp fuel n
  | turn hp hd _ ih =>
    cases fuel with
    | zero => cases hfuel
    | succ fuel =>
      rw [List.length_cons] at hfuel ⊢
      rw [fire_of_ok site hp hd, ih (by omega)]
      congr 2
      omega

theorem exists_fires {fuel n m : Nat} {s s' : σ}
    (h : site.fire call limit fuel n s = (.ok m, s')) :
    ∃ fs, Fires site call limit s fs s' ∧ fs.length < fuel ∧ m = n + fs.length := by
  induction fuel generalizing n s with
  | zero => cases h
  | succ fuel ih =>
    cases hp : (site.timeline s).popDue limit with
    | none =>
      rw [fire_of_none site hp] at h
      cases h
      exact ⟨[], .done hp, Nat.succ_pos fuel, rfl⟩
    | some p =>
      obtain ⟨f, t⟩ := p
      obtain ⟨r, s₁, hd⟩ : ∃ r s₁, site.deliver call f f.at_
          (site.record (site.firing f) (site.update t s)) = (r, s₁) := ⟨_, _, rfl⟩
      cases r with
      | error stop =>
        rw [fire_of_error site hp hd] at h
        cases h
      | ok _ =>
        rw [fire_of_ok site hp hd] at h
        obtain ⟨fs, hfires, hlt, hm⟩ := ih h
        refine ⟨(f, s₁) :: fs, .turn hp hd hfires, ?_, ?_⟩
        · simp only [List.length_cons]
          omega
        · simp only [List.length_cons]
          omega

/-- More fuel than is needed changes nothing. -/
theorem fire_mono {fuel fuel' n m : Nat} {s s' : σ} (hle : fuel ≤ fuel')
    (h : site.fire call limit fuel n s = (.ok m, s')) :
    site.fire call limit fuel' n s = (.ok m, s') := by
  obtain ⟨fs, hfires, hlt, rfl⟩ := exists_fires h
  exact hfires.fire (Nat.lt_of_lt_of_le hlt hle) n

theorem advance_mono {fuel fuel' : Nat} {d r : Delay} {s s' : σ} (hle : fuel ≤ fuel')
    (h : site.advance call fuel d s = (.ok r, s')) :
    site.advance call fuel' d s = (.ok r, s') := by
  rw [advance_apply] at h ⊢
  obtain ⟨m, s₁, hfire⟩ : ∃ m s₁, site.fire call ((site.timeline s).limit d) fuel 0
      (site.entered d s) = (m, s₁) := ⟨_, _, rfl⟩
  rw [hfire] at h
  cases m with
  | error stop => cases h
  | ok m =>
    rw [fire_mono hle hfire]
    exact h

/-- An advance by `d` from `s` fires `fs`, one after another, and then returns `r` in `s'`. -/
structure Advances (site : Site σ κ) (call : κ → Act σ Unit) (d : Delay) (s : σ)
    (fs : List (Firing (Delivery κ) × σ)) (r : Delay) (s' : σ) : Prop where
  fires : ∃ s₁, Fires site call ((site.timeline s).limit d) (site.entered d s) fs s₁
  returns : ∀ fuel, fs.length < fuel → site.advance call fuel d s = (.ok r, s')

theorem advances_iff {d r : Delay} {s s' : σ} {fs : List (Firing (Delivery κ) × σ)} :
    Advances site call d s fs r s' ↔
      ∃ s₁, Fires site call ((site.timeline s).limit d) (site.entered d s) fs s₁ ∧
        s' = site.settled d ((site.timeline s).limit d) fs.length s₁ ∧
        r = (site.timeline s').elapsed := by
  have hreturns {s₁ : σ} (hfires : Fires site call ((site.timeline s).limit d)
      (site.entered d s) fs s₁) (fuel : Nat) (hfuel : fs.length < fuel) :
      site.advance call fuel d s =
        (.ok ((site.timeline s₁).settle ((site.timeline s).limit d)).elapsed,
          site.settled d ((site.timeline s).limit d) fs.length s₁) := by
    rw [advance_apply, hfires.fire hfuel, Nat.zero_add]
    rfl
  constructor
  · rintro ⟨⟨s₁, hfires⟩, h⟩
    have hboth := (h _ (Nat.lt_succ_self _)).symm.trans (hreturns hfires _ (Nat.lt_succ_self _))
    rw [Prod.mk.injEq, Except.ok.injEq] at hboth
    obtain ⟨rfl, rfl⟩ := hboth
    exact ⟨s₁, hfires, rfl, by rw [timeline_settled]⟩
  · rintro ⟨s₁, hfires, rfl, rfl⟩
    rw [timeline_settled]
    exact ⟨⟨s₁, hfires⟩, hreturns hfires⟩

/-- An advance that returns has fired finitely often. -/
theorem exists_advances {fuel : Nat} {d r : Delay} {s s' : σ}
    (h : site.advance call fuel d s = (.ok r, s')) : ∃ fs, Advances site call d s fs r s' := by
  have happly := h
  rw [advance_apply] at happly
  obtain ⟨m, s₁, hfire⟩ : ∃ m s₁, site.fire call ((site.timeline s).limit d) fuel 0
      (site.entered d s) = (m, s₁) := ⟨_, _, rfl⟩
  rw [hfire] at happly
  cases m with
  | error stop => cases happly
  | ok m =>
    obtain ⟨fs, hfires, hlt, rfl⟩ := exists_fires hfire
    rw [Prod.mk.injEq, Except.ok.injEq] at happly
    obtain ⟨rfl, rfl⟩ := happly
    rw [Nat.zero_add]
    exact ⟨fs, advances_iff.mpr ⟨s₁, hfires, rfl, (congrArg _ (timeline_settled ..)).symm⟩⟩

end VirtualClock.Site

import VirtualClock.Proofs.Advance
import VirtualClock.Proofs.Timeline.Spared

/-! Advances whose callbacks leave one handle alone. Callbacks may use all other handles and advance
further, and no advance is left by a panic. What such an advance does to its timeline is what a
single caller does who leaves the handle alone. -/

namespace VirtualClock.Site

variable {σ κ α β : Type} {site : Site σ κ} {id : Nat}

/-- A deed that leaves the handle of `id` alone and is not the end of an advance by a panic. -/
def Careful (id : Nat) (d : Deed κ) : Prop := d.spares id = true ∧ d.isLeave = false

theorem Careful.append {ds ds' : List (Deed κ)} (hds : ∀ d ∈ ds, Careful id d)
    (hds' : ∀ d ∈ ds', Careful id d) : ∀ d ∈ ds ++ ds', Careful id d := by
  intro d hd
  exact (List.mem_append.mp hd).elim (hds d) (hds' d)

theorem Careful.begun {ds : List (Deed κ)} (hds : ∀ d ∈ ds, Careful id d) (d : Delay) :
    ∀ x ∈ .advance d :: ds, Careful id x :=
  List.forall_mem_cons.mpr ⟨⟨rfl, rfl⟩, hds⟩

theorem Careful.finished {ds : List (Deed κ)} (hds : ∀ d ∈ ds, Careful id d) :
    ∀ x ∈ ds ++ [.finish], Careful id x :=
  Careful.append hds (List.forall_mem_singleton.mpr ⟨rfl, rfl⟩)

/-- If `x` returns, then what it did to the timeline was careful of `id`. -/
def Spares (site : Site σ κ) (id : Nat) (x : Act σ α) : Prop :=
  ∀ s as a s', x s = (.ok a, s') → ∃ ds, (∀ d ∈ ds, Careful id d) ∧
    (⟨site.timeline s, as⟩ : Solo κ).run ds = some ⟨site.timeline s', as⟩

/-- A single caller who is careful of `id`, beside the states that hold the timeline. Only what returns
is followed. -/
def carefully (site : Site σ κ) (id : Nat) : Conduct σ (List Advancing) where
  Leads as s as' s' := ∃ ds, (∀ d ∈ ds, Careful id d) ∧
    (⟨site.timeline s, as⟩ : Solo κ).run ds = some ⟨site.timeline s', as'⟩
  Follows _ := False
  refl _ _ := ⟨[], by simp, rfl⟩
  trans := by
    rintro as as' as'' s s' s'' ⟨ds, hcareful, hrun⟩ ⟨ds', hcareful', hrun'⟩
    exact ⟨ds ++ ds', .append hcareful hcareful', (Solo.run_of_append hrun).trans hrun'⟩

theorem spares_iff {x : Act σ α} : site.Spares id x ↔ (site.carefully id).Acts x := by
  constructor
  · exact fun h as s => ⟨fun a ha => h s as a (x s).2 (Prod.ext ha rfl), fun _ _ h => h.elim⟩
  · intro h s as a s' hx
    have hout := (h as s).returned a (congrArg Prod.fst hx)
    rwa [hx] at hout

theorem spares_pure (a : α) : site.Spares id (pure a) := spares_iff.mpr (Conduct.acts_pure a)

theorem Spares.bind {x : Act σ α} {f : α → Act σ β} (hx : site.Spares id x)
    (hf : ∀ a, site.Spares id (f a)) : site.Spares id (x >>= f) :=
  spares_iff.mpr ((spares_iff.mp hx).bind fun a => spares_iff.mp (hf a))

theorem carefully_loops (site : Site σ κ) (id : Nat) (a : Advancing) (as : List Advancing) :
    (site.carefully id).Loops site a.limit as (a :: as) fun _ => a :: as where
  send hp hto := ⟨[.fire], List.forall_mem_singleton.mpr ⟨rfl, rfl⟩, site.run_fire_send hp hto as⟩
  call hp hto := ⟨[.fire], List.forall_mem_singleton.mpr ⟨rfl, rfl⟩, site.run_fire_call hp hto as⟩
  back s _ := (site.carefully id).refl _ s
  leave _ _ h := h.elim
  exhausted _ h := h.elim

variable {call : κ → Act σ Unit}

/-- An advance that returns begins, is careful, and finishes. -/
theorem advance_careful (hcall : ∀ k, site.Spares id (call k)) {fuel : Nat} {d r : Delay} {s s' : σ}
    (h : site.advance call fuel d s = (.ok r, s')) (as : List Advancing) :
    ∃ ds, (∀ d ∈ ds, Careful id d) ∧
      (⟨site.timeline s, as⟩ : Solo κ).run (.advance d :: ds ++ [.finish]) =
        some ⟨site.timeline s', as⟩ := by
  let a : Advancing := ⟨(site.timeline s).now, d⟩
  obtain ⟨hreturned, -⟩ :=
    (carefully_loops site id a as).advance (d := d) (fun k => spares_iff.mp (hcall k)) fuel
  obtain ⟨fired, s₁, ⟨ds, hcareful, hrun⟩, hdone, hadvance⟩ :=
    hreturned r (congrArg Prod.fst h)
  obtain ⟨-, rfl⟩ := Prod.mk.inj (hadvance.symm.trans h)
  rw [timeline_entered] at hrun
  have hbegin : (⟨site.timeline s, as⟩ : Solo κ).run (.advance d :: ds) =
      some ⟨site.timeline s₁, a :: as⟩ := by
    rw [Solo.run_cons]
    exact hrun
  refine ⟨ds, hcareful, ?_⟩
  rw [Solo.run_of_append hbegin, Solo.run_cons, site.step_finish (a := a) hdone, timeline_settled]
  rfl

/-- Callbacks may advance the timeline they are called from. -/
theorem spares_advance (hcall : ∀ k, site.Spares id (call k)) (fuel : Nat) (d : Delay) :
    site.Spares id (site.advance call fuel d) := by
  intro s as r s' h
  obtain ⟨ds, hcareful, hrun⟩ := advance_careful hcall h as
  exact ⟨_, Careful.finished (Careful.begun hcareful d), hrun⟩

end VirtualClock.Site

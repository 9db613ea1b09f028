import Mathlib.Tactic.NthRewrite
import VirtualClock.Proofs.Script.Brief

/-! Two sessions that are alike on one source, and what a step does to them. A step on the source in
both leaves them alike, and so does a step on any other source in one of them. -/

namespace VirtualClock.Script

theorem Kind.of_inj {k k' : Kind} {q q' : Source} : k.of q = k'.of q' ↔ k = k' ∧ q = q' := by
  constructor
  · intro h
    cases k <;> cases k' <;> cases h <;> exact ⟨rfl, rfl⟩
  · rintro ⟨rfl, rfl⟩
    rfl

namespace Session

variable {α : Type}

theorem lookup_filter (name n : String) (l : List (String × α)) :
    lookup n (l.filter (·.1 != name)) = if n = name then none else lookup n l := by
  unfold lookup
  rw [List.find?_filter]
  split
  · rename_i h
    subst h
    rw [List.find?_eq_none.mpr (by simp)]
    rfl
  · rename_i h
    congr 2
    funext x
    by_cases hx : x.1 = n
    · simp [hx, h]
    · simp [hx]

theorem lookup_cons_filter (name n : String) (a : α) (l : List (String × α)) :
    lookup n ((name, a) :: l.filter (·.1 != name)) = if n = name then some a else lookup n l := by
  by_cases h : n = name
  · subst h
    simp [lookup]
  · have h' : ¬name = n := fun heq => h heq.symm
    have hfilter := lookup_filter name n l
    rw [if_neg h] at hfilter ⊢
    rw [← hfilter]
    simp [lookup, h']

end Session

/-! ### What a step leaves alone -/

/-- Nothing happens to the source `a` between two sessions: its timeline stays as it is, and nothing
stands for it that did not before. -/
structure Spared (a : Source) (s s' : Session) : Prop where
  timeline_eq : s'.clocks.timeline a = s.clocks.timeline a
  source : ∀ p, s'.clocks.source p = a → s.clocks.source p = a
  provider : ∀ n p, Session.lookup n s'.targets = some (.provider p) →
    Session.lookup n s.targets = some (.provider p)
  target : ∀ n, Session.lookup n s'.targets = some (.source a) →
    Session.lookup n s.targets = some (.source a)
  handle : ∀ n k, Session.lookup n s'.handles = some (Kind.of a k) →
    Session.lookup n s.handles = some (Kind.of a k)
  lastProvider_eq : s'.clocks.lastProvider = s.clocks.lastProvider

variable {a b q : Source} {s s' : Session}

theorem Spared.refl (a : Source) (s : Session) : Spared a s s :=
  ⟨rfl, fun _ h => h, fun _ _ h => h, fun _ h => h, fun _ _ h => h, rfl⟩

theorem Spared.trans {s₁ : Session} (h : Spared a s s₁) (h' : Spared a s₁ s') : Spared a s s' where
  timeline_eq := h'.timeline_eq.trans h.timeline_eq
  source p hp := h.source p (h'.source p hp)
  provider n p hn := h.provider n p (h'.provider n p hn)
  target n hn := h.target n (h'.target n hn)
  handle n k hn := h.handle n k (h'.handle n k hn)
  lastProvider_eq := h'.lastProvider_eq.trans h.lastProvider_eq

theorem spared_update (hq : q ≠ a) (t : Timeline Nat) : Spared a s (s.update q t) where
  timeline_eq := Clocks.timeline_setTimeline_ne _ hq.symm t
  source p h := (Clocks.source_setTimeline _ q t p).symm.trans h
  provider _ _ h := h
  target _ h := h
  handle _ _ h := h
  lastProvider_eq := Clocks.lastProvider_setTimeline _ q t

theorem spared_discard (hq : q ≠ a) :
    Spared a s { s with clocks := (s.clocks.discard q).2 } := by
  cases q with
  | real => exact .refl a s
  | frozen i => exact spared_update hq _

theorem spared_exchange (hreal : a ≠ .real) {p : Nat} {at_ : Option Reading}
    (hnew : at_.isSome → a ≠ .frozen (s.clocks.lastTimeline + 1)) :
    Spared a s { s with clocks := s.clocks.exchange p at_ } where
  timeline_eq := Clocks.timeline_exchange_ne _ p at_ hnew
  source p' h := by
    by_cases hp' : p' = p
    · subst hp'
      have hinstalled := (Clocks.source_exchange s.clocks p' at_).symm.trans h
      cases at_ with
      | none => exact absurd hinstalled.symm hreal
      | some r => exact absurd hinstalled.symm (hnew rfl)
    · exact (Clocks.source_exchange_ne _ hp' at_).symm.trans h
  provider _ _ h := h
  target _ h := h
  handle _ _ h := h
  lastProvider_eq := Clocks.lastProvider_exchange _ p at_

theorem spared_install (hreal : a ≠ .real) {p : Nat} {at_ : Option Reading}
    (hp : s.clocks.source p ≠ a) (hnew : at_.isSome → a ≠ .frozen (s.clocks.lastTimeline + 1)) :
    Spared a s (s.commit (s.clocks.install p at_)) := by
  obtain ⟨htimeline, hsource, hprovider, htarget, hhandle, hlast⟩ :=
    (spared_exchange (p := p) hreal hnew).trans (spared_discard hp)
  rw [← Clocks.install_eq] at htimeline hsource hlast
  exact ⟨htimeline, hsource, hprovider, htarget, hhandle, hlast⟩

theorem Spared.aim (h : Spared a s s') (hq : q ≠ a) (name : String) :
    Spared a s (s'.aim name (.source q)) where
  timeline_eq := h.timeline_eq
  source := h.source
  provider n p hn := by
    rw [Session.aim, Session.lookup_cons_filter] at hn
    split at hn
    · cases hn
    · exact h.provider n p hn
  target n hn := by
    rw [Session.aim, Session.lookup_cons_filter] at hn
    split at hn
    · cases hn
      exact absurd rfl hq
    · exact h.target n hn
  handle := h.handle
  lastProvider_eq := h.lastProvider_eq

theorem Spared.keep (h : Spared a s s') (hq : q ≠ a) (name : String) (k : Kind) :
    Spared a s (s'.keep name (k.of q)) where
  timeline_eq := h.timeline_eq
  source := h.source
  provider := h.provider
  target := h.target
  handle n k' hn := by
    rw [Session.keep, Session.lookup_cons_filter] at hn
    split at hn
    · exact absurd (Kind.of_inj.mp (Option.some.inj hn)).2 hq
    · exact h.handle n k' hn
  lastProvider_eq := h.lastProvider_eq

/-- What is done on one source spares the others, unless it makes them. -/
theorem Effect.spared {e : Effect} (hq : q ≠ a) (hreal : a ≠ .real)
    (hp : ∀ p at_, e = .install p at_ → s.clocks.source p = q)
    (hnew : (e.apply q s).clocks.lastTimeline ≠ s.clocks.lastTimeline →
      a ≠ .frozen (s.clocks.lastTimeline + 1)) : Spared a s (e.apply q s) := by
  cases e with
  | none => exact .refl a s
  | update t => exact spared_update hq t
  | keep t name k => exact (spared_update hq t).keep hq name k
  | aim name => exact (Spared.refl a s).aim hq name
  | install p at_ =>
    refine spared_install hreal ((hp p at_ rfl).symm ▸ hq) fun hsome => hnew ?_
    have hlast : ((Effect.install p at_).apply q s).clocks.lastTimeline = _ :=
      Clocks.lastTimeline_install s.clocks p at_
    rw [hlast]
    cases at_ with
    | none => cases hsome
    | some r => exact Nat.succ_ne_self _
  | exchange p at_ =>
    refine spared_exchange hreal fun hsome => hnew ?_
    have hlast : ((Effect.exchange p at_).apply q s).clocks.lastTimeline = _ :=
      Clocks.lastTimeline_exchange s.clocks p at_
    rw [hlast]
    cases at_ with
    | none => cases hsome
    | some r => exact Nat.succ_ne_self _
  | forget name =>
    refine ⟨rfl, fun _ h => h, fun _ _ h => h, fun _ h => h, fun n k h => ?_, rfl⟩
    simp only [Effect.apply, Session.lookup_filter] at h
    split at h
    · cases h
    · exact h

/-! ### Two sessions that are alike on one source -/

/-- The session `s'` is to the source `b` what `s` is to the source `a`: whatever stands for `a` in
`s` stands for `b` in `s'`, and their timelines are the same. -/
structure Beside (a b : Source) (s s' : Session) : Prop where
  timeline_eq : s'.clocks.timeline b = s.clocks.timeline a
  source : ∀ p, s.clocks.source p = a → s'.clocks.source p = b
  provider : ∀ n p, Session.lookup n s.targets = some (.provider p) →
    Session.lookup n s'.targets = some (.provider p)
  target : ∀ n, Session.lookup n s.targets = some (.source a) →
    Session.lookup n s'.targets = some (.source b)
  handle : ∀ n k, Session.lookup n s.handles = some (Kind.of a k) →
    Session.lookup n s'.handles = some (Kind.of b k)
  lastProvider_eq : s'.clocks.lastProvider = s.clocks.lastProvider

theorem Beside.spared {s₁ : Session} (h : Beside a b s s') (hs : Spared a s s₁) :
    Beside a b s₁ s' where
  timeline_eq := h.timeline_eq.trans hs.timeline_eq.symm
  source p hp := h.source p (hs.source p hp)
  provider n p hn := h.provider n p (hs.provider n p hn)
  target n hn := h.target n (hs.target n hn)
  handle n k hn := h.handle n k (hs.handle n k hn)
  lastProvider_eq := h.lastProvider_eq.trans hs.lastProvider_eq.symm

theorem Beside.update (h : Beside a b s s') (t : Timeline Nat) :
    Beside a b (s.update a t) (s'.update b t) where
  timeline_eq := (Clocks.timeline_setTimeline _ b t).trans (Clocks.timeline_setTimeline _ a t).symm
  source p hp := (Clocks.source_setTimeline _ b t p).trans
    (h.source p ((Clocks.source_setTimeline _ a t p).symm.trans hp))
  provider := h.provider
  target := h.target
  handle := h.handle
  lastProvider_eq := (Clocks.lastProvider_setTimeline _ b t).trans
    (h.lastProvider_eq.trans (Clocks.lastProvider_setTimeline _ a t).symm)

theorem Beside.keep (h : Beside a b s s') (name : String) (k : Kind) :
    Beside a b (s.keep name (k.of a)) (s'.keep name (k.of b)) where
  timeline_eq := h.timeline_eq
  source := h.source
  provider := h.provider
  target := h.target
  handle n k' hn := by
    simp only [Session.keep, Session.lookup_cons_filter] at hn ⊢
    split at hn
    · rename_i heq
      obtain ⟨rfl, -⟩ := Kind.of_inj.mp (Option.some.inj hn)
      rw [if_pos heq]
    · rename_i hne
      rw [if_neg hne]
      exact h.handle n k' hn
  lastProvider_eq := h.lastProvider_eq

theorem Beside.aim (h : Beside a b s s') (name : String) :
    Beside a b (s.aim name (.source a)) (s'.aim name (.source b)) where
  timeline_eq := h.timeline_eq
  source := h.source
  provider n p hn := by
    simp only [Session.aim, Session.lookup_cons_filter] at hn ⊢
    split at hn
    · cases hn
    · rename_i hne
      rw [if_neg hne]
      exact h.provider n p hn
  target n hn := by
    simp only [Session.aim, Session.lookup_cons_filter] at hn ⊢
    split at hn
    · rename_i heq
      rw [if_pos heq]
    · rename_i hne
      rw [if_neg hne]
      exact h.target n hn
  handle := h.handle
  lastProvider_eq := h.lastProvider_eq

theorem Beside.forget (h : Beside a b s s') (name : String) :
    Beside a b { s with handles := s.handles.filter (·.1 != name) }
      { s' with handles := s'.handles.filter (·.1 != name) } where
  timeline_eq := h.timeline_eq
  source := h.source
  provider := h.provider
  target := h.target
  handle n k hn := by
    rw [Session.lookup_filter] at hn ⊢
    split at hn
    · cases hn
    · rename_i hne
      rw [if_neg hne]
      exact h.handle n k hn
  lastProvider_eq := h.lastProvider_eq

theorem Beside.discard {i j : Nat} (h : Beside (.frozen i) (.frozen j) s s') :
    Beside (.frozen i) (.frozen j) { s with clocks := (s.clocks.discard (.frozen i)).2 }
      { s' with clocks := (s'.clocks.discard (.frozen j)).2 } := by
  have hupdate := h.update (s.clocks.timeline (.frozen i)).discard.2
  rw [← h.timeline_eq] at hupdate
  nth_rewrite 1 [h.timeline_eq] at hupdate
  exact hupdate

/-- A provider gives the source up, in both sessions. -/
theorem Beside.exchange {i j p : Nat} (h : Beside (.frozen i) (.frozen j) s s')
    (at_ : Option Reading) (hi : i ≤ s.clocks.lastTimeline) (hj : j ≤ s'.clocks.lastTimeline) :
    Beside (.frozen i) (.frozen j) { s with clocks := s.clocks.exchange p at_ }
      { s' with clocks := s'.clocks.exchange p at_ } where
  timeline_eq := by
    have hne {m last : Nat} (hm : m ≤ last) : Source.frozen m ≠ .frozen (last + 1) := by
      intro heq
      cases heq
      omega
    exact (Clocks.timeline_exchange_ne _ p at_ fun _ => hne hj).trans
      (h.timeline_eq.trans (Clocks.timeline_exchange_ne _ p at_ fun _ => hne hi).symm)
  source p' hp' := by
    by_cases heq : p' = p
    · subst heq
      have hinstalled := (Clocks.source_exchange s.clocks p' at_).symm.trans hp'
      cases at_ with
      | none => cases hinstalled
      | some r =>
        cases hinstalled
        omega
    · refine (Clocks.source_exchange_ne _ heq at_).trans (h.source p' ?_)
      exact (Clocks.source_exchange_ne _ heq at_).symm.trans hp'
  provider := h.provider
  target := h.target
  handle := h.handle
  lastProvider_eq := (Clocks.lastProvider_exchange _ p at_).trans
    (h.lastProvider_eq.trans (Clocks.lastProvider_exchange _ p at_).symm)

theorem Beside.install {i j p : Nat} (h : Beside (.frozen i) (.frozen j) s s')
    (hp : s.clocks.source p = .frozen i) (at_ : Option Reading)
    (hi : i ≤ s.clocks.lastTimeline) (hj : j ≤ s'.clocks.lastTimeline) :
    Beside (.frozen i) (.frozen j) (s.commit (s.clocks.install p at_))
      (s'.commit (s'.clocks.install p at_)) := by
  have hclocks : (s.clocks.install p at_).2 =
      ((s.clocks.exchange p at_).discard (.frozen i)).2 := by rw [Clocks.install_eq, hp]
  have hclocks' : (s'.clocks.install p at_).2 =
      ((s'.clocks.exchange p at_).discard (.frozen j)).2 := by
    rw [Clocks.install_eq, h.source p hp]
  obtain ⟨htimeline, hsource, hprovider, htarget, hhandle, hlast⟩ :=
    (h.exchange (p := p) at_ hi hj).discard
  simp only [← hclocks, ← hclocks'] at htimeline hsource hlast
  exact ⟨htimeline, hsource, hprovider, htarget, hhandle, hlast⟩

/-- What is done on the source in one session is done on it in the other. -/
theorem Beside.apply {i j : Nat} (h : Beside (.frozen i) (.frozen j) s s') {e : Effect}
    (hp : ∀ p at_, e = .install p at_ → s.clocks.source p = .frozen i)
    (hi : i ≤ s.clocks.lastTimeline) (hj : j ≤ s'.clocks.lastTimeline) :
    Beside (.frozen i) (.frozen j) (e.apply (.frozen i) s) (e.apply (.frozen j) s') := by
  cases e with
  | none => exact h
  | update t => exact h.update t
  | keep t name k => exact (h.update t).keep name k
  | aim name => exact h.aim name
  | install p at_ => exact h.install (hp p at_ rfl) at_ hi hj
  | exchange p at_ => exact h.exchange at_ hi hj
  | forget name => exact h.forget name

/-- Nothing stands for the source `a`. -/
structure Absent (a : Source) (s : Session) : Prop where
  source : ∀ p, s.clocks.source p ≠ a
  target : ∀ n, Session.lookup n s.targets ≠ some (.source a)
  handle : ∀ n k, Session.lookup n s.handles ≠ some (Kind.of a k)

theorem Absent.spared {s₁ : Session} (h : Absent a s) (hs : Spared a s s₁) : Absent a s₁ :=
  ⟨fun p hp => h.source p (hs.source p hp), fun n hn => h.target n (hs.target n hn),
    fun n k hn => h.handle n k (hs.handle n k hn)⟩

/-- The timeline is made and installed in a provider, in both sessions. -/
theorem Beside.exchange_new {i j : Nat} (h : Beside (.frozen i) (.frozen j) s s')
    (habsent : Absent (.frozen i) s) (hi : i = s.clocks.lastTimeline + 1)
    (hj : j = s'.clocks.lastTimeline + 1) (p : Nat) (r : Reading) :
    Beside (.frozen i) (.frozen j) { s with clocks := s.clocks.exchange p (some r) }
      { s' with clocks := s'.clocks.exchange p (some r) } where
  timeline_eq := by
    subst hi hj
    exact (Clocks.timeline_exchange _ p r).trans (Clocks.timeline_exchange _ p r).symm
  source p' hp' := by
    by_cases heq : p' = p
    · subst heq hj
      exact Clocks.source_exchange _ p' (some r)
    · exact absurd ((Clocks.source_exchange_ne _ heq (some r)).symm.trans hp') (habsent.source p')
  provider := h.provider
  target := h.target
  handle := h.handle
  lastProvider_eq := (Clocks.lastProvider_exchange _ p (some r)).trans
    (h.lastProvider_eq.trans (Clocks.lastProvider_exchange _ p (some r)).symm)

/-- A freeze makes the timeline, in both sessions. What it discards is another one. -/
theorem Beside.freeze {i j : Nat} (h : Beside (.frozen i) (.frozen j) s s')
    (habsent : Absent (.frozen i) s) (hi : i = s.clocks.lastTimeline + 1)
    (hj : j = s'.clocks.lastTimeline + 1) (p : Nat) (r : Reading) :
    Beside (.frozen i) (.frozen j) (s.commit (s.clocks.freeze p r))
      (s'.commit (s'.clocks.freeze p r)) where
  timeline_eq := by
    subst hi hj
    exact (Clocks.timeline_freeze _ p r).trans (Clocks.timeline_freeze _ p r).symm
  source p' hp' := by
    by_cases heq : p' = p
    · subst heq hj
      exact Clocks.source_freeze _ p' r
    · exact absurd ((Clocks.source_freeze_ne _ heq r).symm.trans hp') (habsent.source p')
  provider := h.provider
  target := h.target
  handle := h.handle
  lastProvider_eq := (Clocks.lastProvider_install _ p (some r)).trans
    (h.lastProvider_eq.trans (Clocks.lastProvider_install _ p (some r)).symm)

/-- The session with a new bare timeline of a name. -/
def Session.addSource (s : Session) (name : String) (at_ : Instant) : Session :=
  { s with clocks := (s.clocks.newTimeline at_.reading).2 }.aim name
    (.source (s.clocks.newTimeline at_.reading).1)

theorem spared_addSource (ha : a ≠ .frozen (s.clocks.lastTimeline + 1)) (name : String)
    (at_ : Instant) : Spared a s (s.addSource name at_) := by
  have hnew : Spared a s { s with clocks := (s.clocks.newTimeline at_.reading).2 } :=
    ⟨Clocks.timeline_newTimeline_ne _ at_.reading ha, fun _ h => h, fun _ _ h => h, fun _ h => h,
      fun _ _ h => h, rfl⟩
  exact hnew.aim ha.symm name

/-- A bare timeline is made, in both sessions. -/
theorem Beside.addSource {i j : Nat} (h : Beside (.frozen i) (.frozen j) s s')
    (hi : i = s.clocks.lastTimeline + 1) (hj : j = s'.clocks.lastTimeline + 1) (name : String)
    (at_ : Instant) :
    Beside (.frozen i) (.frozen j) (s.addSource name at_) (s'.addSource name at_) := by
  subst hi hj
  have hnew : Beside (.frozen (s.clocks.lastTimeline + 1)) (.frozen (s'.clocks.lastTimeline + 1))
      { s with clocks := (s.clocks.newTimeline at_.reading).2 }
      { s' with clocks := (s'.clocks.newTimeline at_.reading).2 } :=
    ⟨(Clocks.timeline_newTimeline _ at_.reading).trans
      (Clocks.timeline_newTimeline _ at_.reading).symm,
      h.source, h.provider, h.target, h.handle, h.lastProvider_eq⟩
  exact hnew.aim name

/-- The session with a new provider of a name. -/
def Session.addProvider (s : Session) (name : String) (guard : GuardMode) : Session :=
  { s with clocks := (s.clocks.newProvider guard).2 }.aim name
    (.provider (s.clocks.newProvider guard).1)

theorem Beside.addProvider (h : Beside a b s s') (ha : a ≠ .real) (name : String)
    (guard : GuardMode) : Beside a b (s.addProvider name guard) (s'.addProvider name guard) := by
  have hnumber : (s'.clocks.newProvider guard).1 = (s.clocks.newProvider guard).1 :=
    congrArg (· + 1) h.lastProvider_eq
  refine ⟨?_, fun p hp => ?_, fun n p hn => ?_, fun n hn => ?_, h.handle, hnumber⟩
  · cases a <;> cases b <;> exact h.timeline_eq
  · have hs : (s.addProvider name guard).clocks.source p = _ := Clocks.source_newProvider ..
    have hs' : (s'.addProvider name guard).clocks.source p = _ := Clocks.source_newProvider ..
    rw [hs] at hp
    rw [hs', h.lastProvider_eq]
    split at hp
    · exact absurd hp.symm ha
    · rename_i hne
      rw [if_neg hne]
      exact h.source p hp
  · simp only [Session.addProvider, Session.aim, Session.lookup_cons_filter, hnumber] at hn ⊢
    split at hn
    · rename_i heq
      rw [if_pos heq]
      exact hn
    · rename_i hne
      rw [if_neg hne]
      exact h.provider n p hn
  · simp only [Session.addProvider, Session.aim, Session.lookup_cons_filter] at hn ⊢
    split at hn
    · cases hn
    · rename_i hne
      rw [if_neg hne]
      exact h.target n hn

theorem Absent.addProvider (h : Absent a s) (ha : a ≠ .real) (name : String) (guard : GuardMode) :
    Absent a (s.addProvider name guard) := by
  refine ⟨fun p hp => ?_, fun n hn => ?_, h.handle⟩
  · have hs : (s.addProvider name guard).clocks.source p = _ := Clocks.source_newProvider ..
    rw [hs] at hp
    split at hp
    · exact ha hp.symm
    · exact h.source p hp
  · simp only [Session.addProvider, Session.aim, Session.lookup_cons_filter] at hn
    split at hn
    · cases hn
    · exact h.target n hn

end VirtualClock.Script

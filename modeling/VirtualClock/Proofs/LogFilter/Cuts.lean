import Mathlib.Data.List.Induction
import VirtualClock.LogFilter
import VirtualClock.Proofs.Text.Pieces

/-! Where the parts of a directive are cut. A directive cannot be read for a part that starts or ends
within a character if and only if one of the places at which it is cut lies within a character of
the text (`ofChars_splits_iff`). That needs a blank in front of the directive and a character of
several bytes. A filter fails so at the first of its directives that cannot be read. All of this
holds whatever engine reads the patterns in them. -/

namespace VirtualClock.LogFilter

/-! ### Reading that may fail -/

theorem exists_of_bind {α β ε : Type} {x : Except ε α} {k : α → Except ε β} {b : β}
    (h : (x >>= k) = .ok b) : ∃ a, x = .ok a ∧ k a = .ok b := by
  cases x with
  | error e => cases h
  | ok a => exact ⟨a, rfl, h⟩

/-- A list is gone through up to the first element for which that fails. -/
theorem mapM_eq_error {α β ε : Type} (f : α → Except ε β) (l : List α) (e : ε) :
    l.mapM f = .error e ↔ ∃ before a after, l = before ++ a :: after ∧
      (∀ b ∈ before, ∃ y, f b = .ok y) ∧ f a = .error e := by
  induction l with
  | nil =>
    refine iff_of_false nofun ?_
    rintro ⟨before, a, after, h, -⟩
    cases before <;> cases h
  | cons x l ih =>
    rw [List.mapM_cons]
    cases hx : f x with
    | error e' =>
      refine ⟨?_, ?_⟩
      · rintro ⟨⟩
        exact ⟨[], x, l, rfl, nofun, hx⟩
      · rintro ⟨before, a, after, heq, hbefore, ha⟩
        cases before with
        | nil =>
          cases heq
          cases hx.symm.trans ha
          rfl
        | cons b before =>
          cases heq
          obtain ⟨y, hy⟩ := hbefore x List.mem_cons_self
          cases hx.symm.trans hy
    | ok y =>
      have hrest : (Except.ok y >>= fun y => l.mapM f >>= fun ys => pure (y :: ys)) = .error e ↔
          l.mapM f = .error e := by
        cases l.mapM f <;> simp [bind, Except.bind, pure, Except.pure]
      refine hrest.trans (ih.trans ⟨?_, ?_⟩)
      · rintro ⟨before, a, after, rfl, hbefore, ha⟩
        exact ⟨x :: before, a, after, rfl, List.forall_mem_cons.mpr ⟨⟨y, hx⟩, hbefore⟩, ha⟩
      · rintro ⟨before, a, after, heq, hbefore, ha⟩
        cases before with
        | nil =>
          cases heq
          cases hx.symm.trans ha
        | cons b before =>
          cases heq
          exact ⟨before, a, after, rfl, (List.forall_mem_cons.mp hbefore).2, ha⟩

namespace Directive

open String (utf8Len utf8Len_nil utf8Len_cons utf8Len_append)

/-! ### Places within a character -/

/-- The place `n` of a text lies within one of its characters. -/
def Inside (text : List Char) (n : Nat) : Prop :=
  ∃ l x r, text = l ++ x :: r ∧ utf8Len l < n ∧ n < utf8Len l + x.utf8Size

theorem not_inside_at_end {text l : List Char} (h : l <+: text) : ¬Inside text (utf8Len l) := by
  rintro ⟨l', x, r', heq, hlt, hgt⟩
  have hx : l' ++ [x] <+: text := ⟨r', by rw [heq]; simp⟩
  obtain hle | hle := List.prefix_or_prefix_of_prefix h hx
  · obtain hlast | hinit := List.prefix_concat_iff.mp hle
    · rw [hlast, utf8Len_append, utf8Len_cons, utf8Len_nil] at hgt
      omega
    · obtain ⟨r, rfl⟩ := hinit
      rw [utf8Len_append] at hlt
      omega
  · obtain ⟨r, rfl⟩ := hle
    rw [utf8Len_append, utf8Len_append, utf8Len_cons, utf8Len_nil] at hgt
    omega

theorem not_inside_of_le {text : List Char} {n : Nat} (h : utf8Len text ≤ n) : ¬Inside text n := by
  rintro ⟨l, x, r, rfl, -, hgt⟩
  rw [utf8Len_append, utf8Len_cons] at h
  omega

theorem Inside.append {text : List Char} {n : Nat} (h : Inside text n) (l : List Char) :
    Inside (l ++ text) (utf8Len l + n) := by
  obtain ⟨l', x, r, rfl, hlt, hgt⟩ := h
  refine ⟨l ++ l', x, r, by rw [List.append_assoc], ?_, ?_⟩ <;> rw [utf8Len_append] <;> omega

/-- Only a character of several bytes has places within it. -/
theorem Inside.exists_wide {text : List Char} {n : Nat} (h : Inside text n) :
    ∃ x ∈ text, 1 < x.utf8Size := by
  obtain ⟨l, x, r, rfl, hlt, hgt⟩ := h
  exact ⟨x, by simp, by omega⟩

theorem dropBytes_succ (n : Nat) (c : Char) (cs : List Char) :
    dropBytes (n + 1) (c :: cs) =
      if c.utf8Size ≤ n + 1 then dropBytes (n + 1 - c.utf8Size) cs else .error .splitsCharacter :=
  rfl

theorem takeBytes_succ (n : Nat) (c : Char) (cs : List Char) :
    takeBytes (n + 1) (c :: cs) =
      if c.utf8Size ≤ n + 1 then (c :: ·) <$> takeBytes (n + 1 - c.utf8Size) cs
      else .error .splitsCharacter :=
  rfl

theorem dropBytes_cases (n : Nat) (text : List Char) :
    (∃ l r, text = l ++ r ∧ utf8Len l = n ∧ dropBytes n text = .ok r) ∨
      (utf8Len text ≤ n ∧ dropBytes n text = .ok []) ∨
      Inside text n ∧ dropBytes n text = .error .splitsCharacter := by
  induction text generalizing n with
  | nil => exact .inr (.inl ⟨Nat.zero_le n, by cases n <;> rfl⟩)
  | cons c text ih =>
    cases n with
    | zero => exact .inl ⟨[], c :: text, rfl, rfl, rfl⟩
    | succ n =>
      rw [dropBytes_succ]
      split
      · rename_i hle
        obtain ⟨l, r, rfl, hl, hd⟩ | ⟨hlen, hd⟩ | ⟨hin, hd⟩ := ih (n + 1 - c.utf8Size)
        · exact .inl ⟨c :: l, r, rfl, by rw [utf8Len_cons]; omega, hd⟩
        · exact .inr (.inl ⟨by rw [utf8Len_cons]; omega, hd⟩)
        · refine .inr (.inr ⟨?_, hd⟩)
          have hin' := hin.append [c]
          rw [utf8Len_cons, utf8Len_nil] at hin'
          rwa [show n + 1 = 0 + c.utf8Size + (n + 1 - c.utf8Size) by omega]
      · exact .inr (.inr ⟨⟨[], c, text, rfl, by simp, by simpa using by omega⟩, rfl⟩)

theorem takeBytes_cases (n : Nat) (text : List Char) :
    (∃ l r, text = l ++ r ∧ utf8Len l = n ∧ takeBytes n text = .ok l) ∨
      (utf8Len text ≤ n ∧ takeBytes n text = .ok text) ∨
      Inside text n ∧ takeBytes n text = .error .splitsCharacter := by
  induction text generalizing n with
  | nil => exact .inr (.inl ⟨Nat.zero_le n, by cases n <;> rfl⟩)
  | cons c text ih =>
    cases n with
    | zero => exact .inl ⟨[], c :: text, rfl, rfl, rfl⟩
    | succ n =>
      rw [takeBytes_succ]
      split
      · rename_i hle
        obtain ⟨l, r, rfl, hl, hd⟩ | ⟨hlen, hd⟩ | ⟨hin, hd⟩ := ih (n + 1 - c.utf8Size)
        · exact .inl ⟨c :: l, r, rfl, by rw [utf8Len_cons]; omega, by rw [hd]; rfl⟩
        · exact .inr (.inl ⟨by rw [utf8Len_cons]; omega, by rw [hd]; rfl⟩)
        · refine .inr (.inr ⟨?_, by rw [hd]; rfl⟩)
          have hin' := hin.append [c]
          rw [utf8Len_cons, utf8Len_nil] at hin'
          rwa [show n + 1 = 0 + c.utf8Size + (n + 1 - c.utf8Size) by omega]
      · exact .inr (.inr ⟨⟨[], c, text, rfl, by simp, by simpa using by omega⟩, rfl⟩)

/-- A part can be taken unless it starts or ends within a character. -/
theorem slice_cases (text : List Char) {first last : Nat} (h : first ≤ last) :
    (∃ part, slice text first last = .ok part) ∧ ¬Inside text first ∧ ¬Inside text last ∨
      slice text first last = .error .splitsCharacter ∧ (Inside text first ∨ Inside text last) := by
  obtain ⟨l, r, rfl, rfl, hd⟩ | ⟨hlen, hd⟩ | ⟨hin, hd⟩ := dropBytes_cases first text
  · have hfirst := not_inside_at_end (List.prefix_append l r)
    have hslice : slice (l ++ r) (utf8Len l) last = takeBytes (last - utf8Len l) r := by
      rw [slice, hd]
      rfl
    rw [hslice]
    obtain ⟨p, q, rfl, hp, ht⟩ | ⟨hlen, ht⟩ | ⟨hin, ht⟩ := takeBytes_cases (last - utf8Len l) r
    · refine .inl ⟨⟨p, ht⟩, hfirst, ?_⟩
      rw [show last = utf8Len (l ++ p) by rw [utf8Len_append]; omega]
      exact not_inside_at_end ⟨q, by simp⟩
    · exact .inl ⟨⟨r, ht⟩, hfirst, not_inside_of_le (by rw [utf8Len_append]; omega)⟩
    · refine .inr ⟨ht, .inr ?_⟩
      rw [show last = utf8Len l + (last - utf8Len l) by omega]
      exact hin.append l
  · refine .inl ⟨⟨[], ?_⟩, not_inside_of_le hlen, not_inside_of_le (Nat.le_trans hlen h)⟩
    rw [slice, hd]
    show takeBytes (last - first) [] = _
    cases last - first <;> rfl
  · exact .inr ⟨by rw [slice, hd]; rfl, .inl hin⟩

/-- A part can be taken unless it starts or ends within a character, also where its text is read
further. -/
theorem slice_bind_iff {β : Type} {text : List Char} {first last : Nat} (h : first ≤ last)
    {k : List Char → Except Fault β} (hk : ∀ part, k part ≠ .error .splitsCharacter) :
    (slice text first last >>= k) = .error .splitsCharacter ↔
      Inside text first ∨ Inside text last := by
  obtain ⟨⟨part, hpart⟩, hfirst, hlast⟩ | ⟨hsplits, hin⟩ := slice_cases text h
  · rw [hpart]
    exact iff_of_false (hk part) (not_or.mpr ⟨hfirst, hlast⟩)
  · rw [hsplits]
    exact iff_of_true rfl hin

theorem dropBytes_bind_iff {β : Type} {text : List Char} {n : Nat}
    {k : List Char → Except Fault β} (hk : ∀ part, k part ≠ .error .splitsCharacter) :
    (dropBytes n text >>= k) = .error .splitsCharacter ↔ Inside text n := by
  obtain ⟨l, r, rfl, rfl, hd⟩ | ⟨hlen, hd⟩ | ⟨hin, hd⟩ := dropBytes_cases n text
  · rw [hd]
    exact iff_of_false (hk r) (not_inside_at_end (List.prefix_append l r))
  · rw [hd]
    exact iff_of_false (hk []) (not_inside_of_le hlen)
  · rw [hd]
    exact iff_of_true rfl hin

/-! ### The parts of a directive -/

/-- The place where the part that is being read starts. -/
def Stage.start? : Stage → Option Nat
  | levelOrTarget first | span first | field first | level first => some first
  | beginning | fields | target => none

/-- The place where the part starts that the character `x` ends. -/
def Stage.endedBy? (x : Char) : Stage → Option Nat
  | levelOrTarget first => if x == '=' || x == '[' then some first else none
  | span first => if x == ']' || x == '\x7b' then some first else none
  | field first => if x == '\x7d' then some first else none
  | beginning | fields | target | level _ => none

/-- The place where the part starts that the end of the directive ends. -/
def Stage.last? : Stage → Option Nat
  | levelOrTarget first | level first => some first
  | beginning | span _ | field _ | fields | target => none

theorem Stage.start?_of_endedBy? {stage : Stage} {x : Char} {first : Nat}
    (h : stage.endedBy? x = some first) : stage.start? = some first := by
  cases stage with
  | levelOrTarget n | span n | field n => exact (Option.ite_none_right_eq_some.mp h).2
  | beginning | fields | target | level n => cases h

theorem Stage.start?_of_last? {stage : Stage} {first : Nat} (h : stage.last? = some first) :
    stage.start? = some first := by
  cases stage with
  | levelOrTarget n | level n => exact h
  | beginning | span n | field n | fields | target => cases h

/-- The part that is being read starts at the end of a part of what was read. -/
def Stage.StartsIn (stage : Stage) (done : List Char) : Prop :=
  ∀ first ∈ stage.start?, ∃ l, l <+: done ∧ first = utf8Len l

theorem Stage.StartsIn.le {stage : Stage} {done : List Char} (h : stage.StartsIn done) :
    ∀ first ∈ stage.start?, first ≤ utf8Len done := by
  intro first hfirst
  obtain ⟨l, ⟨r, rfl⟩, rfl⟩ := h first hfirst
  rw [utf8Len_append]
  exact Nat.le_add_right _ _

theorem Stage.StartsIn.mono {stage : Stage} {done : List Char} (h : stage.StartsIn done)
    (x : Char) : stage.StartsIn (done ++ [x]) := by
  intro first hfirst
  obtain ⟨l, hl, heq⟩ := h first hfirst
  exact ⟨l, hl.trans (List.prefix_append done [x]), heq⟩

/-- What is made of a directive that was read to its end. -/
def finish (text : List Char) : Stage × Directive → Except Fault Directive
  | (.levelOrTarget first, d) => do
    let part ← dropBytes first text
    if part.isEmpty then return d
    match rank? part with
    | some rank => return { d with rank }
    | none => return { d with target := some (.ofList part) }
  | (.level first, d) => do
    let part ← dropBytes first text
    if part.isEmpty then return d
    match rank? part with
    | some rank => return { d with rank }
    | none => throw .malformed
  | (.target, d) => return d
  | _ => throw .malformed

theorem finish_splits_iff (text : List Char) (stage : Stage) (d : Directive) :
    finish text (stage, d) = .error .splitsCharacter ↔
      ∃ first, stage.last? = some first ∧ Inside text first := by
  cases stage with
  | levelOrTarget first =>
    refine (dropBytes_bind_iff fun part => ?_).trans (by simp [Stage.last?])
    split
    · nofun
    · split <;> nofun
  | level first =>
    refine (dropBytes_bind_iff fun part => ?_).trans (by simp [Stage.last?])
    split
    · nofun
    · split <;> nofun
  | beginning | span first | field first | fields | target =>
    exact iff_of_false nofun (by rintro ⟨first, ⟨⟩, -⟩)

section Reading

variable [PatternEngine]

/-- A character cannot be read if it ends a part that starts or ends within a character. -/
theorem step_splits_iff {text : List Char} {i : Nat} {x : Char} {stage : Stage} {d : Directive}
    (h : ∀ first ∈ stage.start?, first ≤ i) :
    step text i x stage d = .error .splitsCharacter ↔
      ∃ first, stage.endedBy? x = some first ∧ (Inside text first ∨ Inside text i) := by
  cases stage with
  | beginning =>
    simp only [step, Stage.endedBy?]
    split_ifs <;> simp
  | levelOrTarget first =>
    by_cases heq : x = '='
    · subst heq
      refine (slice_bind_iff (h first rfl) ?_).trans (by simp [Stage.endedBy?])
      exact fun part => nofun
    · by_cases hopen : x = '['
      · subst hopen
        refine (slice_bind_iff (h first rfl) ?_).trans (by simp [Stage.endedBy?])
        exact fun part => nofun
      · simp [step, Stage.endedBy?, heq, hopen, pure, Except.pure]
  | span first =>
    by_cases hclose : x = ']'
    · subst hclose
      refine (slice_bind_iff (h first rfl) ?_).trans (by simp [Stage.endedBy?])
      exact fun part => nofun
    · by_cases hopen : x = '\x7b'
      · subst hopen
        refine (slice_bind_iff (h first rfl) ?_).trans (by simp [Stage.endedBy?])
        exact fun part => nofun
      · simp [step, Stage.endedBy?, hclose, hopen, pure, Except.pure]
  | field first =>
    by_cases hclose : x = '\x7d'
    · subst hclose
      refine (slice_bind_iff (h first rfl) fun part => ?_).trans (by simp [Stage.endedBy?])
      cases FieldMatch.ofChars? part <;> exact nofun
    · simp [step, Stage.endedBy?, hclose, pure, Except.pure]
  | fields =>
    simp only [step, Stage.endedBy?]
    split_ifs <;> simp
  | target =>
    simp only [step, Stage.endedBy?]
    split_ifs <;> simp
  | level n => simp [step, Stage.endedBy?]

/-- What a character does to the stage: nothing, or it ends a part, or the next part starts at it or
behind it. -/
theorem start?_of_step {text : List Char} {i : Nat} {x : Char} {stage stage' : Stage}
    {d d' : Directive} (h : step text i x stage d = .ok (stage', d')) :
    stage' = stage ∨ stage'.start? = none ∨ stage'.start? = some i ∨
      x.utf8Size = 1 ∧ stage'.start? = some (i + 1) := by
  unfold step at h
  split at h
  · split_ifs at h with hopen
    · cases h
      exact .inr (.inr (.inr ⟨by rw [eq_of_beq hopen]; rfl, rfl⟩))
    · cases h
      exact .inr (.inr (.inl rfl))
  · split_ifs at h with heq hopen
    · obtain ⟨part, -, ⟨⟩⟩ := exists_of_bind h
      exact .inr (.inr (.inr ⟨by rw [eq_of_beq heq]; rfl, rfl⟩))
    · obtain ⟨part, -, ⟨⟩⟩ := exists_of_bind h
      exact .inr (.inr (.inr ⟨by rw [eq_of_beq hopen]; rfl, rfl⟩))
    · cases h
      exact .inl rfl
  · split_ifs at h with hclose hopen
    · obtain ⟨part, -, ⟨⟩⟩ := exists_of_bind h
      exact .inr (.inl rfl)
    · obtain ⟨part, -, ⟨⟩⟩ := exists_of_bind h
      exact .inr (.inr (.inr ⟨by rw [eq_of_beq hopen]; rfl, rfl⟩))
    · cases h
      exact .inl rfl
  · split_ifs at h with hclose
    · obtain ⟨part, -, h⟩ := exists_of_bind h
      split at h <;> cases h
      exact .inr (.inl rfl)
    · cases h
      exact .inl rfl
  · split_ifs at h
    cases h
    exact .inr (.inl rfl)
  · split_ifs at h with heq
    cases h
    exact .inr (.inr (.inr ⟨by rw [eq_of_beq heq]; rfl, rfl⟩))
  · cases h
    exact .inl rfl

theorem Stage.StartsIn.step {text done : List Char} {x : Char} {stage stage' : Stage}
    {d d' : Directive} (hstart : stage.StartsIn done)
    (h : Directive.step text (utf8Len done) x stage d = .ok (stage', d')) :
    stage'.StartsIn (done ++ [x]) := by
  obtain rfl | hnone | hhere | ⟨hsize, hbehind⟩ := start?_of_step h
  · exact hstart.mono x
  · rintro first hfirst
    rw [hnone] at hfirst
    cases hfirst
  · rintro first hfirst
    rw [hhere] at hfirst
    cases hfirst
    exact ⟨done, List.prefix_append done [x], rfl⟩
  · rintro first hfirst
    rw [hbehind] at hfirst
    cases hfirst
    exact ⟨done ++ [x], List.prefix_refl _, by
      rw [utf8Len_append, utf8Len_cons, utf8Len_nil, hsize]⟩

/-! ### Reading on -/

theorem steps_append (text l r : List Char) (i : Nat) (stage : Stage) (d : Directive) :
    steps text i (l ++ r) stage d =
      steps text i l stage d >>= fun (stage, d) => steps text (i + utf8Len l) r stage d := by
  induction l generalizing i stage d with
  | nil => rfl
  | cons x l ih =>
    rw [List.cons_append, steps, steps]
    cases step text i x stage d with
    | error e => rfl
    | ok p =>
      show steps text (i + x.utf8Size) (l ++ r) p.1 p.2 = steps text (i + x.utf8Size) l p.1 p.2 >>= _
      rw [ih, utf8Len_cons, Nat.add_assoc, Nat.add_comm x.utf8Size]

/-- The reading of a text is that of its first characters, and then that of the last one. -/
theorem steps_concat (text l : List Char) (x : Char) :
    steps text 0 (l ++ [x]) .beginning {} =
      steps text 0 l .beginning {} >>= fun (stage, d) => step text (utf8Len l) x stage d := by
  rw [steps_append, Nat.zero_add]
  congr
  funext p
  show (step text (utf8Len l) x p.1 p.2 >>= fun p => pure p) = step text (utf8Len l) x p.1 p.2
  exact bind_pure _

theorem startsIn_of_steps {text l : List Char} {stage : Stage} {d : Directive}
    (h : steps text 0 l .beginning {} = .ok (stage, d)) : stage.StartsIn l := by
  induction l using List.reverseRecOn generalizing stage d with
  | nil =>
    cases h
    nofun
  | append_singleton l x ih =>
    rw [steps_concat] at h
    obtain ⟨p, hl, hx⟩ := exists_of_bind h
    exact (ih hl).step hx

/-- A reading fails within a character at the first of its characters for which it does. -/
theorem steps_splits_iff (text cs : List Char) :
    steps text 0 cs .beginning {} = .error .splitsCharacter ↔
      ∃ l x r stage d, cs = l ++ x :: r ∧ steps text 0 l .beginning {} = .ok (stage, d) ∧
        step text (utf8Len l) x stage d = .error .splitsCharacter := by
  constructor
  · intro h
    induction cs using List.reverseRecOn with
    | nil => cases h
    | append_singleton l x ih =>
      rw [steps_concat] at h
      cases hl : steps text 0 l .beginning {} with
      | error e =>
        rw [hl] at h
        cases h
        obtain ⟨l', x', r, stage, d, rfl, hread, hstep⟩ := ih hl
        exact ⟨l', x', r ++ [x], stage, d, by simp, hread, hstep⟩
      | ok p =>
        rw [hl] at h
        exact ⟨l, x, [], p.1, p.2, rfl, hl, h⟩
  · rintro ⟨l, x, r, stage, d, rfl, hread, hstep⟩
    rw [List.append_cons, steps_append, steps_concat, hread]
    show (step text (utf8Len l) x stage d >>= _) = _
    rw [hstep]
    rfl

/-- A part of a directive starts or ends within a character of the text: one that the character `x`
ends, or the last one. -/
inductive Tears (text : List Char) : Prop where
  | within (l : List Char) (x : Char) (r : List Char) (stage : Stage) (d : Directive) (first : Nat)
      (htrim : Text.trim text = l ++ x :: r)
      (hread : steps text 0 l .beginning {} = .ok (stage, d))
      (hpart : stage.endedBy? x = some first)
      (hcut : Inside text first ∨ Inside text (utf8Len l))
  | last (stage : Stage) (d : Directive) (first : Nat)
      (hread : steps text 0 (Text.trim text) .beginning {} = .ok (stage, d))
      (hpart : stage.last? = some first)
      (hcut : Inside text first)

theorem ofChars_eq (text : List Char) :
    ofChars text = steps text 0 (Text.trim text) .beginning {} >>= finish text := by
  rw [ofChars]
  congr

/-- A directive cannot be read for a part that starts or ends within a character if and only if it
has such a part. -/
theorem ofChars_splits_iff (text : List Char) :
    ofChars text = .error .splitsCharacter ↔ Tears text := by
  rw [ofChars_eq]
  constructor
  · intro h
    cases hread : steps text 0 (Text.trim text) .beginning {} with
    | error e =>
      rw [hread] at h
      cases h
      obtain ⟨l, x, r, stage, d, htrim, hl, hstep⟩ := (steps_splits_iff text _).mp hread
      obtain ⟨first, hpart, hcut⟩ := (step_splits_iff (startsIn_of_steps hl).le).mp hstep
      exact .within l x r stage d first htrim hl hpart hcut
    | ok p =>
      rw [hread] at h
      obtain ⟨first, hpart, hcut⟩ := (finish_splits_iff text p.1 p.2).mp h
      exact .last p.1 p.2 first hread hpart hcut
  · rintro (⟨l, x, r, stage, d, first, htrim, hl, hpart, hcut⟩ |
      ⟨stage, d, first, hread, hpart, hcut⟩)
    · have hstep : step text (utf8Len l) x stage d = .error .splitsCharacter :=
        (step_splits_iff (startsIn_of_steps hl).le).mpr ⟨first, hpart, hcut⟩
      rw [(steps_splits_iff text _).mpr ⟨l, x, r, stage, d, htrim, hl, hstep⟩]
      rfl
    · rw [hread]
      exact (finish_splits_iff text stage d).mpr ⟨first, hpart, hcut⟩

/-! ### Blanks in front -/

theorem Tears.exists_inside {text : List Char} (h : Tears text) :
    ∃ l, l <+: Text.trim text ∧ Inside text (utf8Len l) := by
  cases h with
  | within l x r stage d first htrim hread hpart hcut =>
    rw [htrim]
    obtain hin | hin := hcut
    · obtain ⟨l', hl', rfl⟩ := startsIn_of_steps hread first (Stage.start?_of_endedBy? hpart)
      exact ⟨l', hl'.trans (List.prefix_append l (x :: r)), hin⟩
    · exact ⟨l, List.prefix_append l (x :: r), hin⟩
  | last stage d first hread hpart hcut =>
    obtain ⟨l, hl, rfl⟩ := startsIn_of_steps hread first (Stage.start?_of_last? hpart)
    exact ⟨l, hl, hcut⟩

/-- Only behind a blank that a directive starts with can its parts be cut within a character, and
only where it has a character of several bytes. -/
theorem Tears.blank_and_wide {text : List Char} (h : Tears text) :
    (∃ x ∈ text.head?, Text.isBlank x = true) ∧ ∃ x ∈ text, 1 < x.utf8Size := by
  obtain ⟨l, hl, hin⟩ := h.exists_inside
  refine ⟨?_, hin.exists_wide⟩
  cases text with
  | nil => exact absurd hin (not_inside_of_le (Nat.zero_le _))
  | cons x rest =>
    refine ⟨x, rfl, ?_⟩
    by_contra hblank
    have htrim : Text.trimStart (x :: rest) = x :: rest := by
      rw [Text.trimStart, List.dropWhile_cons_of_neg hblank]
    have hprefix := hl.trans (Text.trim_prefix_trimStart (x :: rest))
    rw [htrim] at hprefix
    exact not_inside_at_end hprefix hin

theorem Tears.trim_ne_nil {text : List Char} (h : Tears text) : Text.trim text ≠ [] := by
  intro htrim
  cases h with
  | within l x r stage d first heq => cases l <;> cases htrim.symm.trans heq
  | last stage d first hread hpart =>
    rw [htrim] at hread
    cases hread
    cases hpart

end Reading

end Directive

/-! ### Filters -/

variable [PatternEngine]

/-- Behind directives that can be read, a directive of the filter has a part that starts or ends
within a character. -/
def Splits (text : String) : Prop :=
  ∃ before piece after, pieces text = before ++ piece :: after ∧
    (∀ p ∈ before, ∃ d, Directive.ofChars p.toList = .ok d) ∧ Directive.Tears piece.toList

theorem ofString_splits_iff (text : String) :
    ofString text = .error .splitsCharacter ↔ Splits text := by
  have hmap : ofString text = .error .splitsCharacter ↔
      (pieces text).mapM (Directive.ofChars ·.toList) = .error .splitsCharacter := by
    rw [ofString]
    cases (pieces text).mapM (Directive.ofChars ·.toList) <;> simp [Functor.map, Except.map]
  rw [hmap, mapM_eq_error]
  simp only [Directive.ofChars_splits_iff, Splits]

/-- A filter with a part that starts or ends within a character has a directive behind a blank. -/
theorem Splits.blank_and_wide {text : String} (h : Splits text) :
    ∃ piece ∈ pieces text, (∃ x ∈ piece.toList.head?, Text.isBlank x = true) ∧
      ∃ x ∈ piece.toList, 1 < x.utf8Size := by
  obtain ⟨before, piece, after, heq, -, htears⟩ := h
  exact ⟨piece, by rw [heq]; simp, htears.blank_and_wide⟩

theorem Splits.trim_ne_nil {text : String} (h : Splits text) : Text.trim text.toList ≠ [] := by
  obtain ⟨before, piece, after, heq, -, htears⟩ := h
  have hmem : piece ∈ pieces text := by
    rw [heq]
    simp
  have hpiece : piece ∈ text.splitOn "," := (List.mem_filter.mp hmem).1
  rw [show text.splitOn "," = _ from Text.splitOn_eq text ','] at hpiece
  obtain ⟨cs, hcs, rfl⟩ := List.mem_map.mp hpiece
  rw [String.toList_ofList] at htears
  intro htrim
  refine htears.trim_ne_nil (Text.trim_eq_nil_iff.mpr fun x hx => ?_)
  exact Text.trim_eq_nil_iff.mp htrim x (Text.subset_of_mem_splitOn hcs hx)

end VirtualClock.LogFilter

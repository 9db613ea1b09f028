import VirtualClock.Json.Parser
import VirtualClock.Proofs.Text.Digits

/-! What is written for a JSON value is read as that value, if its numbers are integers of
64 bits. -/

namespace VirtualClock.Json

open Text

/-! ### Strings -/

theorem hexValue?_hexDigit : ∀ n < 16, hexValue? (hexDigit n) = some n := by decide

theorem hex4?_hexDigit {n : Nat} (h : n < 256) :
    hex4? '0' '0' (hexDigit (n / 16)) (hexDigit (n % 16)) = some n := by
  have hzero : hexValue? '0' = some 0 := by decide
  rw [hex4?, hexValue?_hexDigit (n / 16) (by omega), hexValue?_hexDigit (n % 16) (by omega), hzero]
  show some _ = some n
  congr
  omega

theorem stringBody_letter {c e : Char} (hu : c ≠ 'u') (h : unescape? c = some e)
    (cs : List Char) :
    stringBody ('\\' :: c :: cs) = (stringBody cs).map fun (s, rest) => (e :: s, rest) := by
  rw [stringBody, h]
  rintro _ _ _ _ _ rfl
  exact absurd rfl hu

theorem stringBody_hex {a b c d : Char} {n : Nat} (h : hex4? a b c d = some n) (hn : n < 0xD800)
    (cs : List Char) : stringBody ('\\' :: 'u' :: a :: b :: c :: d :: cs) =
      (stringBody cs).map fun (s, rest) => (Char.ofNat n :: s, rest) := by
  rw [stringBody, h]
  exact if_pos (by simp [hn])

theorem stringBody_plain {c : Char} (hquote : c ≠ '"') (hback : c ≠ '\\') (h : ¬c.toNat < 32)
    (cs : List Char) :
    stringBody (c :: cs) = (stringBody cs).map fun (s, rest) => (c :: s, rest) := by
  rw [stringBody]
  · exact if_neg (by simp [hback, h])
  · exact hquote
  · exact fun _ _ _ _ _ hc => absurd hc hback
  · exact fun _ _ hc => absurd hc hback

/-- An escaped character is read as that character. -/
theorem stringBody_escape (c : Char) (cs : List Char) :
    stringBody (escape c ++ cs) = (stringBody cs).map fun (s, rest) => (c :: s, rest) := by
  rw [escape]
  split_ifs with hquote hback hn hr ht hb hf hcontrol
  · subst hquote
    exact stringBody_letter (by decide) rfl cs
  · subst hback
    exact stringBody_letter (by decide) rfl cs
  · subst hn
    exact stringBody_letter (by decide) rfl cs
  · subst hr
    exact stringBody_letter (by decide) rfl cs
  · subst ht
    exact stringBody_letter (by decide) rfl cs
  · rw [← Char.ofNat_toNat c, hb]
    exact stringBody_letter (by decide) rfl cs
  · rw [← Char.ofNat_toNat c, hf]
    exact stringBody_letter (by decide) rfl cs
  · refine (stringBody_hex (hex4?_hexDigit (by omega)) (by omega) cs).trans ?_
    rw [Char.ofNat_toNat]
  · exact stringBody_plain hquote hback hcontrol cs

/-- The text between the quotes of a string is read as that string. -/
theorem stringBody_flatMap (s rest : List Char) :
    stringBody (s.flatMap escape ++ '"' :: rest) = some (s, rest) := by
  induction s with
  | nil => rw [List.flatMap_nil, List.nil_append, stringBody]
  | cons c s ih =>
    rw [List.flatMap_cons, List.append_assoc, stringBody_escape, ih]
    rfl

/-! ### Numbers -/

/-- The text ends, or the next element or member or the end of an array or an object follows. -/
def Closes (rest : List Char) : Prop := ∀ c ∈ rest.head?, c = ',' ∨ c = ']' ∨ c = '\x7d'

theorem closes_nil : Closes [] := nofun

theorem Closes.stops {rest : List Char} (h : Closes rest) : Stops rest := by
  intro c hc
  obtain rfl | rfl | rfl := h c hc <;> decide

theorem Closes.fractionPart? {rest : List Char} (h : Closes rest) :
    Json.fractionPart? rest = some ([], rest) := by
  cases rest with
  | nil => rfl
  | cons c rest => obtain rfl | rfl | rfl := h c rfl <;> rfl

theorem Closes.exponentPart? {rest : List Char} (h : Closes rest) :
    Json.exponentPart? rest = some ([], rest) := by
  cases rest with
  | nil => rfl
  | cons c rest => obtain rfl | rfl | rfl := h c rfl <;> rfl

theorem spanDigits_decimal (n : Nat) {rest : List Char} (h : Stops rest) :
    spanDigits (decimal n ++ rest).length (decimal n ++ rest) = (decimal n, rest) :=
  spanDigits_run (isDigit_decimal n) h (by simp)

theorem not_leading_zero (n : Nat) :
    ((decimal n).isEmpty || ((decimal n).head? == some '0' && 1 < (decimal n).length)) = false := by
  rw [Bool.or_eq_false_iff, Bool.and_eq_false_iff, List.isEmpty_eq_false_iff]
  refine ⟨decimal_ne_nil n, ?_⟩
  by_cases hzero : (decimal n).head? = some '0'
  · rw [decimal_head? hzero]
    exact .inr rfl
  · exact .inl (by simpa using hzero)

theorem number?_natural {n : Nat} (h : Word64.isUnsigned n) {rest : List Char}
    (hrest : Closes rest) : number? (decimal n ++ rest) = some (int n, rest) := by
  have hsign : ∀ cs, decimal n ++ rest = '-' :: cs → False := by
    intro cs heq
    have hdigits := isDigit_decimal n
    obtain ⟨c, ds, hds⟩ := List.exists_cons_of_ne_nil (decimal_ne_nil n)
    rw [hds] at heq hdigits
    cases heq
    cases hdigits '-' List.mem_cons_self
  rw [number?]
  · simp only [spanDigits_decimal n hrest.stops, not_leading_zero, hrest.fractionPart?,
      hrest.exponentPart?, Option.bind_eq_bind, Option.bind_some, ofDecimal_decimal]
    simp [h]
  · exact hsign

theorem number?_negative {n : Nat} (hpos : 0 < n) (h : Word64.isSigned (-n)) {rest : List Char}
    (hrest : Closes rest) : number? ('-' :: (decimal n ++ rest)) = some (int (-n), rest) := by
  rw [number?]
  simp only [spanDigits_decimal n hrest.stops, not_leading_zero, hrest.fractionPart?,
    hrest.exponentPart?, Option.bind_eq_bind, Option.bind_some, ofDecimal_decimal]
  simp [h, hpos]

theorem number?_signed {n : Int} (h : Word64.isSigned n ∨ Word64.isUnsigned n) {rest : List Char}
    (hrest : Closes rest) : number? (signed n ++ rest) = some (int n, rest) := by
  simp only [Word64.isSigned, Word64.isUnsigned, Bool.and_eq_true, decide_eq_true_eq] at h
  rw [signed]
  split_ifs with hneg
  · have hn : n = -(n.natAbs : Int) := by omega
    rw [List.cons_append, number?_negative (by omega) _ hrest, ← hn]
    simp only [Word64.isSigned, Bool.and_eq_true, decide_eq_true_eq]
    omega
  · have hn : n = (n.natAbs : Int) := by omega
    rw [number?_natural _ hrest, ← hn]
    simp only [Word64.isUnsigned, Bool.and_eq_true, decide_eq_true_eq]
    omega

/-! ### Values -/

/-- A value whose numbers are integers of 64 bits, with a sign or without. -/
inductive Integral : Json → Prop where
  | null : Integral null
  | bool (b : Bool) : Integral (bool b)
  | int {n : Int} (h : Word64.isSigned n ∨ Word64.isUnsigned n) : Integral (int n)
  | str (s : String) : Integral (str s)
  | arr {elements : List Json} (h : ∀ v ∈ elements, Integral v) : Integral (arr elements)
  | obj {members : List (String × Json)} (h : ∀ m ∈ members, Integral m.2) : Integral (obj members)

/-- A character that is no blank of JSON and does not close an array. -/
def Opens (c : Char) : Prop := c ≠ ' ' ∧ c ≠ '\n' ∧ c ≠ '\r' ∧ c ≠ '\t' ∧ c ≠ ']'

theorem Opens.skipBlanks {c : Char} (h : Opens c) (cs : List Char) :
    Json.skipBlanks (c :: cs) = c :: cs := by
  obtain ⟨hspace, hn, hr, ht, -⟩ := h
  exact List.dropWhile_cons_of_neg (by simp [hspace, hn, hr, ht])

theorem opens_of_isDigit {c : Char} (h : isDigit c = true) : Opens c := by
  refine ⟨?_, ?_, ?_, ?_, ?_⟩ <;> rintro rfl <;> cases h

/-- A number starts with a digit or a minus sign. -/
theorem exists_signed (n : Int) :
    ∃ c cs, signed n = c :: cs ∧ (isDigit c = true ∨ c = '-') := by
  rw [signed]
  split_ifs
  · exact ⟨'-', _, rfl, .inr rfl⟩
  · obtain ⟨c, cs, hcs⟩ := List.exists_cons_of_ne_nil (decimal_ne_nil n.natAbs)
    exact ⟨c, cs, hcs, .inl (isDigit_decimal n.natAbs c (by rw [hcs]; exact List.mem_cons_self))⟩

theorem Integral.exists_chars {v : Json} (h : v.Integral) :
    ∃ c cs, v.chars = c :: cs ∧ Opens c := by
  cases h with
  | null | arr h | obj h | str s => exact ⟨_, _, rfl, by unfold Opens; decide⟩
  | bool b => cases b <;> exact ⟨_, _, rfl, by unfold Opens; decide⟩
  | @int n h =>
    obtain ⟨c, cs, hcs, hdigit | rfl⟩ := exists_signed n
    · exact ⟨c, cs, hcs, opens_of_isDigit hdigit⟩
    · exact ⟨'-', cs, hcs, by unfold Opens; decide⟩

/-- What is written for `v` is read as `v`, with any fuel of at least its length. -/
def Reads (v : Json) : Prop :=
  ∀ fuel rest, v.chars.length ≤ fuel → Closes rest →
    value? fuel (v.chars ++ rest) = some (v, rest)

theorem value?_eq_number? {c : Char} (h : isDigit c = true ∨ c = '-') (fuel : Nat)
    (cs : List Char) : value? (fuel + 1) (c :: cs) = number? (c :: cs) := by
  have hopens : Opens c := by
    obtain h | rfl := h
    · exact opens_of_isDigit h
    · unfold Opens
      decide
  rw [value?, hopens.skipBlanks]
  split
  case h_7 => rfl
  all_goals
    rename_i heq
    cases heq
    simp [isDigit] at h

theorem closes_cons {c : Char} (h : c = ',' ∨ c = ']' ∨ c = '\x7d') (rest : List Char) :
    Closes (c :: rest) := by
  rintro _ ⟨⟩
  exact h

theorem elements?_charsElements {vs : List Json} (hvs : ∀ v ∈ vs, v.Reads) (hne : vs ≠ [])
    {fuel : Nat} (hfuel : (charsElements vs).length < fuel) (rest : List Char) :
    elements? fuel (charsElements vs ++ ']' :: rest) = some (vs, rest) := by
  induction vs generalizing fuel with
  | nil => exact absurd rfl hne
  | cons v vs ih =>
    obtain ⟨hv, hvs⟩ := List.forall_mem_cons.mp hvs
    obtain ⟨fuel, rfl⟩ := Nat.exists_eq_succ_of_ne_zero (Nat.ne_zero_of_lt hfuel)
    cases vs with
    | nil =>
      rw [charsElements] at hfuel ⊢
      rw [elements?, hv fuel _ (by omega) (closes_cons (by simp) rest)]
      rfl
    | cons w vs =>
      rw [charsElements, List.length_append, List.length_cons] at hfuel
      · rw [charsElements, List.append_assoc, List.cons_append, elements?,
          hv fuel _ (by omega) (closes_cons (by simp) _)]
        · show ((elements? fuel (charsElements (w :: vs) ++ ']' :: rest)).map _) = _
          rw [ih hvs (List.cons_ne_nil w vs) (by omega)]
          rfl
        · simp
      · simp

theorem quoted_append (k : String) (cs : List Char) :
    quoted k ++ cs = '"' :: (k.toList.flatMap escape ++ '"' :: cs) := by
  rw [quoted, List.append_assoc, List.cons_append]
  rfl

/-- What becomes of a member and of what follows it. -/
def behindMember (fuel : Nat) (k : String) (v : Json) :
    List Char → Option (List (String × Json) × List Char)
  | '\x7d' :: rest => some ([(k, v)], rest)
  | ',' :: rest => (members? fuel rest).map fun (ms, rest) => ((k, v) :: ms, rest)
  | _ => none

theorem members?_member (k : String) {v : Json} (hv : v.Reads) {fuel : Nat}
    (hfuel : v.chars.length ≤ fuel) {rest : List Char} (hrest : Closes rest) :
    members? (fuel + 1) (quoted k ++ ':' :: (v.chars ++ rest)) =
      behindMember fuel k v (skipBlanks rest) := by
  have hquote (cs : List Char) : skipBlanks ('"' :: cs) = '"' :: cs := rfl
  have hcolon (cs : List Char) : skipBlanks (':' :: cs) = ':' :: cs := rfl
  rw [quoted_append, members?, hquote]
  simp only [stringBody_flatMap, hcolon, hv fuel rest hfuel hrest, String.ofList_toList]
  rfl

theorem members?_charsMembers {ms : List (String × Json)} (hms : ∀ m ∈ ms, m.2.Reads)
    (hne : ms ≠ []) {fuel : Nat} (hfuel : (charsMembers ms).length < fuel) (rest : List Char) :
    members? fuel (charsMembers ms ++ '\x7d' :: rest) = some (ms, rest) := by
  induction ms generalizing fuel with
  | nil => exact absurd rfl hne
  | cons m ms ih =>
    obtain ⟨k, v⟩ := m
    obtain ⟨hv, hms⟩ := List.forall_mem_cons.mp hms
    change v.Reads at hv
    obtain ⟨fuel, rfl⟩ := Nat.exists_eq_succ_of_ne_zero (Nat.ne_zero_of_lt hfuel)
    cases ms with
    | nil =>
      rw [charsMembers, List.length_append, List.length_cons] at hfuel
      rw [charsMembers, List.append_assoc, List.cons_append,
        members?_member k hv (by omega) (closes_cons (by simp) rest)]
      rfl
    | cons m ms =>
      rw [charsMembers, List.length_append, List.length_cons, List.length_append,
        List.length_cons] at hfuel
      · rw [charsMembers, List.append_assoc, List.append_assoc, List.cons_append, List.cons_append,
          members?_member k hv (by omega) (closes_cons (by simp) _)]
        · show ((members? fuel (charsMembers (m :: ms) ++ '\x7d' :: rest)).map _) = _
          rw [ih hms (List.cons_ne_nil m ms) (by omega)]
          rfl
        · simp
      · simp

/-- It is enough to look at what is left of the fuel behind the first step. -/
theorem Integral.reads_of_succ {v : Json} (h : v.Integral)
    (hsucc : ∀ fuel rest, v.chars.length ≤ fuel + 1 → Closes rest →
      value? (fuel + 1) (v.chars ++ rest) = some (v, rest)) : v.Reads := by
  intro fuel rest hfuel hrest
  obtain ⟨c, cs, hcs, -⟩ := h.exists_chars
  have hpos : 0 < v.chars.length := by
    rw [hcs]
    exact Nat.succ_pos _
  obtain ⟨fuel, rfl⟩ := Nat.exists_eq_succ_of_ne_zero
    (Nat.ne_zero_of_lt (Nat.lt_of_lt_of_le hpos hfuel))
  exact hsucc fuel rest hfuel hrest

theorem value?_bracket {c : Char} (h : Opens c) (fuel : Nat) (cs : List Char) :
    value? (fuel + 1) ('[' :: c :: cs) =
      (elements? fuel (c :: cs)).map fun (vs, rest) => (arr vs, rest) := by
  have hskip : skipBlanks ('[' :: c :: cs) = '[' :: c :: cs := rfl
  rw [value?, hskip]
  simp only [h.skipBlanks]
  split
  · rename_i heq
    cases heq
    exact absurd rfl h.2.2.2.2
  · rfl

theorem exists_charsElements {v : Json} (h : v.Integral) (vs : List Json) :
    ∃ c cs, charsElements (v :: vs) = c :: cs ∧ Opens c := by
  obtain ⟨c, cs, hcs, hopens⟩ := h.exists_chars
  cases vs with
  | nil => exact ⟨c, cs, by rw [charsElements, hcs], hopens⟩
  | cons w vs => exact ⟨c, _, by rw [charsElements, hcs, List.cons_append]; simp, hopens⟩

theorem reads_arr {vs : List Json} (h : ∀ v ∈ vs, v.Integral) (hvs : ∀ v ∈ vs, v.Reads) :
    (arr vs).Reads := by
  refine (Integral.arr h).reads_of_succ fun fuel rest hfuel hrest => ?_
  cases vs with
  | nil => rfl
  | cons v vs =>
    rw [chars, List.length_append, List.length_cons, List.length_singleton] at hfuel
    have hread : elements? fuel (charsElements (v :: vs) ++ ']' :: rest) = some (v :: vs, rest) :=
      elements?_charsElements hvs (List.cons_ne_nil v vs) (by omega) rest
    obtain ⟨c, cs, hcs, hopens⟩ := exists_charsElements (h v List.mem_cons_self) vs
    rw [chars, List.append_assoc, List.cons_append, List.singleton_append]
    rw [hcs, List.cons_append] at hread ⊢
    rw [value?_bracket hopens, hread]
    rfl

theorem exists_charsMembers (m : String × Json) (ms : List (String × Json)) :
    ∃ cs, charsMembers (m :: ms) = '"' :: cs := by
  obtain ⟨k, v⟩ := m
  cases ms <;> exact ⟨_, rfl⟩

theorem reads_obj {ms : List (String × Json)} (h : ∀ m ∈ ms, m.2.Integral)
    (hms : ∀ m ∈ ms, m.2.Reads) : (obj ms).Reads := by
  refine (Integral.obj h).reads_of_succ fun fuel rest hfuel hrest => ?_
  cases ms with
  | nil => rfl
  | cons m ms =>
    rw [chars, List.length_append, List.length_cons, List.length_singleton] at hfuel
    have hread : members? fuel (charsMembers (m :: ms) ++ '\x7d' :: rest) = some (m :: ms, rest) :=
      members?_charsMembers hms (List.cons_ne_nil m ms) (by omega) rest
    obtain ⟨cs, hcs⟩ := exists_charsMembers m ms
    rw [chars, List.append_assoc, List.cons_append, List.singleton_append]
    rw [hcs, List.cons_append] at hread ⊢
    show ((members? fuel ('"' :: (cs ++ '\x7d' :: rest))).map _) = _
    rw [hread]
    rfl

theorem Integral.reads {v : Json} (h : v.Integral) : v.Reads := by
  induction h with
  | null => exact Integral.null.reads_of_succ fun fuel rest _ _ => rfl
  | bool b => exact (Integral.bool b).reads_of_succ fun fuel rest _ _ => by cases b <;> rfl
  | @int n h =>
    refine (Integral.int h).reads_of_succ fun fuel rest _ hrest => ?_
    obtain ⟨c, cs, hcs, hc⟩ := exists_signed n
    have hread := number?_signed h hrest
    rw [chars]
    rw [hcs, List.cons_append] at hread ⊢
    rw [value?_eq_number? hc, hread]
  | str s =>
    refine (Integral.str s).reads_of_succ fun fuel rest _ _ => ?_
    rw [chars, quoted_append]
    show ((stringBody (s.toList.flatMap escape ++ '"' :: rest)).map _) = _
    rw [stringBody_flatMap]
    exact congrArg (fun s => some (Json.str s, rest)) String.ofList_toList
  | arr h ih => exact reads_arr h ih
  | obj h ih => exact reads_obj h ih

/-- What is written for a value is read as that value. -/
theorem parse?_render {v : Json} (h : v.Integral) : parse? v.render = some v := by
  have hread : value? (v.chars.length + 1) (v.chars ++ []) = some (v, []) :=
    h.reads _ [] (Nat.le_succ _) closes_nil
  rw [List.append_nil] at hread
  rw [parse?, render, String.toList_ofList, ofChars?, hread]
  rfl

end VirtualClock.Json

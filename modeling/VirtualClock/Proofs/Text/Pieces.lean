import Mathlib.Data.List.TakeWhile
import Mathlib.Data.String.Basic
import Mathlib.Tactic.SplitIfs
import VirtualClock.Text.Blank

/-! Splitting a text at a character gives the pieces of its list of characters, and trimming it gives
a part of them. -/

namespace VirtualClock.Text

open String

/-- The loop that splits a text: `l` is done, `m` is the piece that has begun, and `r` is left. -/
theorem splitOnAux_eq (c : Char) (l m r : List Char) (pieces : List String) :
    (ofList (l ++ m ++ r)).splitOnAux (ofList [c]) ⟨utf8Len l⟩ ⟨utf8Len l + utf8Len m⟩ 0 pieces =
      pieces.reverse ++ (List.splitOnPPrepend (· == c) r m.reverse).map ofList := by
  rw [splitOnAux]
  cases r with
  | nil =>
    have hend : Pos.Raw.atEnd (ofList (l ++ m ++ [])) ⟨utf8Len l + utf8Len m⟩ = true := by
      rw [atEnd_iff, rawEndPos_ofList, List.append_nil, utf8Len_append]
      exact Nat.le_refl _
    rw [if_pos hend, extract_of_valid l m []]
    simp [List.splitOnPPrepend]
  | cons x r =>
    have hend : ¬Pos.Raw.atEnd (ofList (l ++ m ++ x :: r)) ⟨utf8Len l + utf8Len m⟩ = true := by
      rw [atEnd_iff, rawEndPos_ofList, utf8Len_append, utf8Len_append, utf8Len_cons]
      have := x.utf8Size_pos
      exact Nat.not_le.mpr (by simp only; omega)
    have hget : Pos.Raw.get (ofList (l ++ m ++ x :: r)) ⟨utf8Len l + utf8Len m⟩ = x := by
      rw [← utf8Len_append]
      exact get_of_valid (l ++ m) (x :: r)
    have hnext : Pos.Raw.next (ofList (l ++ m ++ x :: r)) ⟨utf8Len l + utf8Len m⟩ =
        ⟨utf8Len l + utf8Len m + x.utf8Size⟩ := by
      rw [← utf8Len_append]
      exact next_of_valid (l ++ m) x r
    have hsep : Pos.Raw.get (ofList [c]) 0 = c := get_of_valid [] [c]
    rw [if_neg hend, hget, hsep, List.splitOnPPrepend_cons_eq_if]
    by_cases hx : x = c
    · subst hx
      have hsepnext : Pos.Raw.next (ofList [x]) 0 = ⟨x.utf8Size⟩ := by
        simpa using next_of_valid [] x []
      have hsepend : Pos.Raw.atEnd (ofList [x]) ⟨x.utf8Size⟩ = true := by
        rw [atEnd_iff, rawEndPos_ofList, utf8Len_cons, utf8Len_nil, Nat.zero_add]
        exact Nat.le_refl _
      have hback : Pos.Raw.unoffsetBy ⟨utf8Len l + utf8Len m + x.utf8Size⟩ ⟨x.utf8Size⟩ =
          ⟨utf8Len l + utf8Len m⟩ := by
        simp [Pos.Raw.unoffsetBy]
      have hrest := splitOnAux_eq x (l ++ m ++ [x]) [] r (ofList m :: pieces)
      simp only [hnext, hsepnext, beq_self_eq_true, if_true, hsepend, hback,
        extract_of_valid l m (x :: r)]
      simpa only [utf8Len_append, utf8Len_cons, utf8Len_nil, Nat.add_zero, Nat.zero_add,
        Nat.add_assoc, List.append_nil, List.append_assoc, List.singleton_append, List.reverse_cons,
        List.reverse_nil, List.reverse_reverse, List.map_cons, List.splitOnP] using hrest
    · have hback : Pos.Raw.unoffsetBy ⟨utf8Len l + utf8Len m⟩ 0 = ⟨utf8Len l + utf8Len m⟩ := by
        simp [Pos.Raw.unoffsetBy]
      have hrest := splitOnAux_eq c l (m ++ [x]) r pieces
      rw [if_neg (by simpa using hx), if_neg (by simpa using hx), hback, hnext]
      simpa only [utf8Len_append, utf8Len_cons, utf8Len_nil, Nat.zero_add, Nat.add_assoc,
        List.append_assoc, List.singleton_append, List.reverse_append, List.reverse_cons,
        List.reverse_nil, List.nil_append, List.cons_append] using hrest

theorem splitOn_eq (s : String) (c : Char) :
    s.splitOn (ofList [c]) = (s.toList.splitOn c).map ofList := by
  have hsplit := splitOnAux_eq c [] [] s.toList []
  have hsep : (ofList [c] == "") = false := by simp
  simp only [List.append_nil, List.nil_append, ofList_toList, utf8Len_nil,
    List.reverse_nil] at hsplit
  rw [splitOn, hsep]
  exact hsplit

theorem splitOn_ne_nil (s : String) (c : Char) : s.splitOn (ofList [c]) ≠ [] := by
  rw [splitOn_eq, Ne, List.map_eq_nil_iff]
  exact List.splitOnP_ne_nil _ _

theorem subset_of_mem_splitOn {c : Char} {piece text : List Char} (h : piece ∈ text.splitOn c) :
    piece ⊆ text := by
  induction text generalizing piece with
  | nil =>
    have hnil : piece = [] := by simpa [List.splitOn, List.splitOnP_nil] using h
    rw [hnil]
    exact List.nil_subset []
  | cons x text ih =>
    rw [List.splitOn, List.splitOnP_cons_eq_if_modifyHead] at h
    split_ifs at h
    · obtain rfl | h := List.mem_cons.mp h
      · exact List.nil_subset _
      · exact List.subset_cons_of_subset x (ih h)
    · obtain ⟨first, rest, hpieces⟩ := List.exists_cons_of_ne_nil (List.splitOnP_ne_nil (· == c) text)
      rw [List.splitOn, hpieces] at ih
      rw [hpieces, List.modifyHead_cons] at h
      obtain rfl | h := List.mem_cons.mp h
      · exact List.cons_subset_cons x (ih List.mem_cons_self)
      · exact List.subset_cons_of_subset x (ih (List.mem_cons_of_mem first h))

theorem trim_prefix_trimStart (text : List Char) : trim text <+: trimStart text := by
  have hsuffix : trimStart (trimStart text).reverse <:+ (trimStart text).reverse :=
    List.dropWhile_suffix _
  simpa [trim] using List.reverse_prefix.mpr hsuffix

theorem trim_eq_nil_iff {cs : List Char} : trim cs = [] ↔ ∀ x ∈ cs, isBlank x = true := by
  rw [trim, List.reverse_eq_nil_iff, trimStart, List.dropWhile_eq_nil_iff]
  simp only [List.mem_reverse]
  constructor
  · intro h
    have hnil : trimStart cs = [] := by
      by_contra hne
      exact List.dropWhile_get_zero_not isBlank cs (List.length_pos_of_ne_nil hne)
        (h _ (List.getElem_mem _))
    exact List.dropWhile_eq_nil_iff.mp hnil
  · exact fun h x hx => h x ((List.dropWhile_suffix _).subset hx)

end VirtualClock.Text

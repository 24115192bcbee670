import Mathlib.Data.List.Basic

/-!
# Binary search

Where a list splits into what is below and what is not, if nothing below comes after
something that is not. The search halves an interval that the split is in.
-/
namespace SendSelf.BinarySearch

variable {α : Type*} (below : α → Bool)

/-- The search in `lo, …, hi`. -/
def search (l : List α) (lo hi : ℕ) : ℕ :=
  if lo < hi then
    let mid := (lo + hi) / 2
    if (l[mid]?).any below then search l (mid + 1) hi else search l lo mid
  else lo
termination_by hi - lo

variable {below} {l : List α}

theorem search_spec (h : l.Pairwise fun a b => below b = true → below a = true) {lo hi : ℕ}
    (hlo : ∀ a ∈ l.take lo, below a = true) (hhi : ∀ a ∈ l.drop hi, below a = false) (hle : lo ≤ hi)
    (hlen : hi ≤ l.length) :
    (∀ a ∈ l.take (search below l lo hi), below a = true) ∧ ∀ a ∈ l.drop (search below l lo hi),
    below a = false := by
  fun_induction search below l lo hi with
  | case1 lo hi hlt mid hmid ih =>
    have hbound : mid < l.length := by omega
    rw [List.getElem?_eq_getElem hbound] at hmid
    refine ih (fun a ha => ?_) hhi (by omega) hlen
    rw [List.take_add_one, List.getElem?_eq_getElem hbound] at ha
    rcases List.mem_append.mp ha with ha | ha
    · have hsplit := h
      rw [← List.take_append_drop mid l, List.pairwise_append,
        List.drop_eq_getElem_cons hbound] at hsplit
      exact hsplit.2.2 a ha l[mid] List.mem_cons_self hmid
    · obtain rfl := List.mem_singleton.mp ha
      exact hmid
  | case2 lo hi hlt mid hmid ih =>
    have hbound : mid < l.length := by omega
    rw [List.getElem?_eq_getElem hbound] at hmid
    refine ih hlo (fun a ha => ?_) (by omega) (by omega)
    rw [List.drop_eq_getElem_cons hbound] at ha
    rcases List.mem_cons.mp ha with rfl | ha
    · exact Bool.eq_false_iff.mpr hmid
    · have hsplit := h
      rw [← List.take_append_drop mid l, List.pairwise_append, List.drop_eq_getElem_cons hbound,
        List.pairwise_cons] at hsplit
      exact Bool.eq_false_iff.mpr fun hb => hmid (hsplit.2.1.1 a ha hb)
  | case3 lo hi hge =>
    obtain rfl : lo = hi := by omega
    exact ⟨hlo, hhi⟩

/-- The search in the whole list. -/
theorem search_splits (h : l.Pairwise fun a b => below b = true → below a = true) :
    (∀ a ∈ l.take (search below l 0 l.length), below a = true) ∧
    ∀ a ∈ l.drop (search below l 0 l.length), below a = false := by
  refine search_spec h (fun a ha => ?_) (fun a ha => ?_) (Nat.zero_le _) (Nat.le_refl _)
  · rw [List.take_zero] at ha
    cases ha
  · rw [List.drop_length] at ha
    cases ha

end SendSelf.BinarySearch

import Mathlib.Data.Set.Card
import SendSelf.Library.Forest

/-!
# Levels of a forest

How deep a node of a forest is: as many steps below a top node as it has nodes above it.
-/
namespace SendSelf.Forest

variable {κ : Type*} (parent : κ → Option κ)

/-- The nodes above a node. -/
def ancestors (x : κ) : Set κ := {a | Above parent a x ∧ a ≠ x}

/-- So many steps below a top node. -/
inductive Level : ℕ → κ → Prop
  | top {x : κ} (h : parent x = none) : Level 0 x
  | under {n : ℕ} {x y : κ} (h : parent x = some y) (hy : Level n y) : Level (n + 1) x

variable {parent}

theorem Level.of_parent {n : ℕ} {x y : κ} (h : Level parent n x) (hy : parent x = some y) :
    ∃ m, n = m + 1 ∧ Level parent m y := by
  cases h with
  | top h => exact absurd (h.symm.trans hy) (Option.some_ne_none y).symm
  | @under m _ z hz h =>
      obtain rfl := Option.some.inj (hz.symm.trans hy)
      exact ⟨m, rfl, h⟩

theorem Level.unique {m n : ℕ} {x : κ} (hm : Level parent m x) (hn : Level parent n x) : m = n := by
  induction hm generalizing n with
  | top h =>
      cases hn with
      | top => rfl
      | under hy => exact absurd (h.symm.trans hy) (Option.some_ne_none _).symm
  | under h _ ih =>
      obtain ⟨k, rfl, hk⟩ := hn.of_parent h
      rw [ih hk]

/-- A node is no deeper than what it is above. -/
theorem Level.above {n : ℕ} {a x : κ} (ha : Above parent a x) (hx : Level parent n x) :
    ∃ m ≤ n, Level parent m a := by
  induction hx with
  | top h =>
      rcases above_iff.mp ha with rfl | ⟨y, hy, _⟩
      · exact ⟨0, Nat.le_refl 0, .top h⟩
      · exact absurd (h.symm.trans hy) (Option.some_ne_none y).symm
  | @under n x y h hy ih =>
      rcases above_iff.mp ha with rfl | ⟨z, hz, ha⟩
      · exact ⟨n + 1, Nat.le_refl _, .under h hy⟩
      · obtain rfl := Option.some.inj (hz.symm.trans h)
        obtain ⟨m, hm, hma⟩ := ih ha
        exact ⟨m, Nat.le_succ_of_le hm, hma⟩

/-- A node that has a level is not above its parent. -/
theorem Level.not_above {n : ℕ} {x y : κ} (hx : Level parent n x) (h : parent x = some y) :
    ¬ Above parent x y := by
  intro habove
  obtain ⟨m, rfl, hm⟩ := hx.of_parent h
  obtain ⟨k, hk, hkx⟩ := hm.above habove
  have hsame := hkx.unique hx
  omega

theorem ancestors_top {x : κ} (h : parent x = none) : ancestors parent x = ∅ := by
  refine Set.eq_empty_of_forall_notMem fun a ha => ?_
  rcases above_iff.mp ha.1 with rfl | ⟨y, hy, _⟩
  · exact ha.2 rfl
  · exact absurd (h.symm.trans hy) (Option.some_ne_none y).symm

theorem Level.ancestors_under {n : ℕ} {x y : κ} (hx : Level parent n x) (h : parent x = some y) :
    ancestors parent x = insert y (ancestors parent y) := by
  ext a
  constructor
  · intro ha
    rcases above_iff.mp ha.1 with rfl | ⟨z, hz, habove⟩
    · exact absurd rfl ha.2
    · obtain rfl := Option.some.inj (hz.symm.trans h)
      by_cases he : a = z
      · exact Or.inl he
      · exact Or.inr ⟨habove, he⟩
  · intro ha
    have habove : Above parent a y := by
      rcases ha with rfl | ha
      · exact above_refl a
      · exact ha.1
    refine ⟨habove.trans (above_of_parent h), ?_⟩
    rintro rfl
    exact hx.not_above h habove

theorem Level.finite {n : ℕ} {x : κ} (hx : Level parent n x) : (ancestors parent x).Finite := by
  induction hx with
  | top h =>
      rw [ancestors_top h]
      exact Set.finite_empty
  | under h hy ih =>
      rw [(Level.under h hy).ancestors_under h]
      exact ih.insert _

/-- The level of a node is the number of nodes above it. -/
theorem Level.ncard {n : ℕ} {x : κ} (hx : Level parent n x) : (ancestors parent x).ncard = n := by
  induction hx with
  | top h => rw [ancestors_top h, Set.ncard_empty]
  | @under n x y h hy ih =>
      have hnot : y ∉ ancestors parent y := fun hself => hself.2 rfl
      rw [(Level.under h hy).ancestors_under h, Set.ncard_insert_of_notMem hnot hy.finite, ih]

theorem Acyclic.exists_level (h : Acyclic parent) {nodes : Finset κ}
    (hnodes : ∀ x y, parent x = some y → x ∈ nodes) (x : κ) : ∃ n, Level parent n x := by
  obtain ⟨a, ha, htop⟩ := h.exists_top hnodes x
  induction ha using Relation.ReflTransGen.head_induction_on with
  | refl => exact ⟨0, .top htop⟩
  | head hstep _ ih =>
      obtain ⟨n, hn⟩ := ih
      exact ⟨n + 1, .under hstep hn⟩

end SendSelf.Forest

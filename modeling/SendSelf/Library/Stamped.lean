import Mathlib.Order.Lattice
import Mathlib.Data.List.Pairwise

/-!
# A register whose writes are stamped

The writes of a register, the newest first, each with the stamp that readers compare. When
no write is stamped before the one it replaces, and one with the same stamp writes the same
value, a stamp determines the value, and no write is stamped after the newest.
-/
namespace SendSelf.Stamped

variable {τ α : Type*} [LinearOrder τ]

/-- Each write is stamped after every one before it, unless it repeats it. -/
def Ordered (writes : List (τ × α)) : Prop :=
  writes.Pairwise fun newer older => older.1 < newer.1 ∨ older = newer

theorem ordered_nil : Ordered ([] : List (τ × α)) := List.Pairwise.nil

theorem Ordered.le_newest {w : τ × α} {writes : List (τ × α)} (h : Ordered (w :: writes))
    {v : τ × α} (hv : v ∈ w :: writes) :
    v.1 ≤ w.1 := by
  rcases List.mem_cons.mp hv with rfl | hv
  · exact le_rfl
  · rcases List.rel_of_pairwise_cons h hv with hlt | rfl
    · exact hlt.le
    · exact le_rfl

/-- A write that is stamped after the newest, or repeats it, keeps the order. -/
theorem Ordered.cons {w : τ × α} {writes : List (τ × α)} (h : Ordered writes)
    (hw : ∀ v ∈ writes.head?, v.1 < w.1 ∨ v = w) : Ordered (w :: writes) := by
  refine List.Pairwise.cons (fun v hv => ?_) h
  cases writes with
  | nil => cases hv
  | cons newest older =>
    have hle := h.le_newest hv
    rcases hw newest rfl with hlt | rfl
    · exact Or.inl (hle.trans_lt hlt)
    · rcases List.mem_cons.mp hv with rfl | hv
      · exact Or.inr rfl
      · exact List.rel_of_pairwise_cons h hv

/-- A stamp belongs to one value. -/
theorem Ordered.unique {writes : List (τ × α)} (h : Ordered writes) {v w : τ × α} (hv : v ∈ writes)
    (hw : w ∈ writes) (ht : v.1 = w.1) : v = w := by
  induction writes with
  | nil => cases hv
  | cons newest older ih =>
    have hlater : ∀ u ∈ older, u.1 = newest.1 → u = newest := fun u hu hstamp =>
      (List.rel_of_pairwise_cons h hu).resolve_left fun hlt => hlt.ne hstamp
    rcases List.mem_cons.mp hv with hv | hv
    · rcases List.mem_cons.mp hw with hw | hw
      · rw [hv, hw]
      · rw [hlater w hw (ht.symm.trans (congrArg _ hv)), hv]
    · rcases List.mem_cons.mp hw with hw | hw
      · rw [hlater v hv (ht.trans (congrArg _ hw)), hw]
      · exact ih (List.Pairwise.of_cons h) hv hw

end SendSelf.Stamped

import Mathlib.Data.List.Basic
import Mathlib.Logic.Function.Basic
import Mathlib.Order.Basic

/-!
# Write-once maps

A partial map whose entries are written once and never changed grows along a
preorder: `v ⊑ w` says that `w` has every entry of `v`. When many parties each
hold a partial map below one common map, any two of them agree wherever both
have an entry, and they keep agreeing while the common map grows.
-/
namespace SendSelf.WriteOnce

variable {ι α : Type*}

/-- Every entry of `v` is an entry of `w`. -/
def Below (v w : ι → Option α) : Prop := ∀ i a, v i = some a → w i = some a

theorem Below.refl (v : ι → Option α) : Below v v := fun _ _ h => h

theorem Below.trans {u v w : ι → Option α} (h : Below u v) (h' : Below v w) : Below u w :=
  fun i a ha => h' i a (h i a ha)

/-- Two maps below a common one agree wherever both have an entry. -/
theorem Below.agree {u v w : ι → Option α} {i : ι} {a b : α} (hu : Below u w) (hv : Below v w)
    (ha : u i = some a) (hb : v i = some b) : a = b :=
  Option.some.inj ((hu i a ha).symm.trans (hv i b hb))

variable [DecidableEq ι]

theorem update_eq_some {v : ι → Option α} {i j : ι} {o : Option α} {a : α} :
    Function.update v i o j = some a ↔ (j = i ∧ o = some a) ∨ (j ≠ i ∧ v j = some a) := by
  by_cases h : j = i
  · subst h
    simp
  · simp [h]

/-- Write one entry. -/
def record (v : ι → Option α) (i : ι) (a : α) : ι → Option α := Function.update v i (some a)

@[simp] theorem record_self {v : ι → Option α} {i : ι} {a : α} : record v i a i = some a := by
  simp [record]

theorem record_ne {v : ι → Option α} {i j : ι} {a : α} (h : j ≠ i) : record v i a j = v j := by
  simp [record, h]

theorem record_eq_some {v : ι → Option α} {i j : ι} {a b : α} :
    record v i a j = some b ↔ (j = i ∧ a = b) ∨ (j ≠ i ∧ v j = some b) := by
  rw [record, update_eq_some, Option.some_inj]

/-- Writing an entry that was free keeps every other one. -/
theorem below_record {v : ι → Option α} {i : ι} (a : α) (h : v i = none) :
    Below v (record v i a) := by
  intro j b hb
  have hj : j ≠ i := by
    intro hj
    simp [hj, h] at hb
  rw [record_ne hj]
  exact hb

/-- So does writing an entry of a common upper bound. -/
theorem Below.below_record {v w : ι → Option α} {i : ι} {a : α} (h : Below v w)
    (ha : w i = some a) :
    Below v (record v i a) := by
  intro j b hb
  by_cases hj : j = i
  · subst hj
    rw [record_self, h.agree (.refl w) hb ha]
  · rw [record_ne hj]
    exact hb

/-- A map stays below another one when it takes over one of its entries. -/
theorem Below.record {v w : ι → Option α} {i : ι} {a : α} (h : Below v w) (ha : w i = some a) :
    Below (record v i a) w := by
  intro j b hb
  rcases record_eq_some.mp hb with ⟨rfl, rfl⟩ | ⟨_, hb⟩
  · exact ha
  · exact h j b hb

/-- A loop that records each entry of a list with one entry an index has what the list has. -/
theorem foldl_record {σ : Type*} {r : σ → ι → Option α} {f : σ → ι × α → σ}
    (hf : ∀ s p, r (f s p) = record (r s) p.1 p.2) {entries : List (ι × α)}
    (hn : (entries.map Prod.fst).Nodup) (s : σ) (i : ι) :
    r (entries.foldl f s) i = (entries.lookup i).or (r s i) := by
  induction entries generalizing s with
  | nil => rfl
  | cons p entries ih =>
    obtain ⟨hp, hn⟩ := List.nodup_cons.mp hn
    rw [List.foldl_cons, ih hn, hf, List.lookup_cons]
    by_cases hi : i = p.1
    · have hnone : entries.lookup i = none := by
        rw [List.lookup_eq_none_iff]
        intro q hq
        exact bne_iff_ne.mpr fun he => hp (hi ▸ he ▸ List.mem_map_of_mem hq)
      rw [hnone, hi, record_self, beq_self_eq_true]
      rfl
    · have hb : (i == p.1) = false := by simpa using hi
      rw [hb, record_ne hi]

end SendSelf.WriteOnce

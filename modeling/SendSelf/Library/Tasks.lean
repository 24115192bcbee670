import Mathlib.Data.List.Basic

/-!
# Operations under way

Operations that run next to each other are a list of what each of them has still to do. One of
them at a time goes on: it is replaced by what is left of it, or taken off the list when it ends.
-/
namespace SendSelf.Tasks

variable {τ : Type*} {tasks : List τ} {next : Option τ} {k : ℕ} {R : τ → τ → Prop}

/-- The operation at this place goes on, or ends. -/
def goOn (tasks : List τ) (k : ℕ) : Option τ → List τ
  | some t => tasks.set k t
  | none => tasks.eraseIdx k

/-- What is under way then: what was, elsewhere, or what is left of the one that went on. -/
theorem mem_goOn {t : τ} (h : t ∈ goOn tasks k next) :
    next = some t ∨ ∃ i ≠ k, tasks[i]? = some t := by
  cases next with
  | some u =>
    obtain ⟨i, hi⟩ := List.mem_iff_getElem?.mp h
    rw [goOn, List.getElem?_set] at hi
    split_ifs at hi with hk hlt
    · exact .inl hi
    · exact .inr ⟨i, Ne.symm hk, hi⟩
  | none =>
    obtain ⟨i, hi⟩ := List.mem_iff_getElem?.mp h
    rw [goOn, List.getElem?_eraseIdx] at hi
    split_ifs at hi with hlt
    · exact .inr ⟨i, Nat.ne_of_lt hlt, hi⟩
    · exact .inr ⟨i + 1, by omega, hi⟩

theorem mem_of_mem_goOn {t : τ} (h : t ∈ goOn tasks k next) : next = some t ∨ t ∈ tasks :=
  (mem_goOn h).imp_right fun ⟨_, _, hi⟩ => List.mem_of_getElem? hi

/-- All the others are still under way. -/
theorem mem_goOn_of_ne {t : τ} {i : ℕ} (hi : tasks[i]? = some t) (hne : i ≠ k) :
    t ∈ goOn tasks k next := by
  cases next with
  | some u => exact List.mem_of_getElem? (by rw [goOn, List.getElem?_set_ne hne.symm]; exact hi)
  | none =>
    rcases Nat.lt_or_gt_of_ne hne with hlt | hgt
    · exact List.mem_of_getElem? (by rw [goOn, List.getElem?_eraseIdx_of_lt hlt]; exact hi)
    · obtain ⟨j, rfl⟩ : ∃ j, i = j + 1 := ⟨i - 1, by omega⟩
      have hle : k ≤ j := by omega
      exact List.mem_of_getElem? (by rw [goOn, List.getElem?_eraseIdx_of_ge hle]; exact hi)

/-- What is left of the one that went on. -/
theorem mem_goOn_self {t u : τ} (hk : tasks[k]? = some u) : t ∈ goOn tasks k (some t) := by
  have hlt : k < tasks.length := (List.getElem?_eq_some_iff.mp hk).1
  exact List.mem_of_getElem? (by rw [goOn, List.getElem?_set_self hlt])

/-- Any two that are under way are so related. -/
def Apart (R : τ → τ → Prop) (tasks : List τ) : Prop :=
  ∀ i j : ℕ, i ≠ j → ∀ t ∈ tasks[i]?, ∀ u ∈ tasks[j]?, R t u

theorem Apart.nil : Apart R [] := fun _ _ _ _ ht => by cases ht

theorem Apart.begin (h : Apart R tasks) {t : τ} (ht : ∀ u ∈ tasks, R t u ∧ R u t) :
    Apart R (tasks ++ [t]) := by
  have hlast : ∀ {i : ℕ} {u : τ}, (tasks ++ [t])[i]? = some u → tasks[i]? = some u ∨
      (i = tasks.length ∧ u = t) := by
    intro i u hu
    rw [List.getElem?_append] at hu
    split_ifs at hu with hlt
    · exact .inl hu
    · obtain ⟨hi, rfl⟩ := List.getElem?_eq_some_iff.mp hu
      simp only [List.length_singleton] at hi
      exact .inr ⟨by omega, by simp⟩
  intro i j hne u hu v hv
  rcases hlast hu with hold | ⟨hi, rfl⟩ <;> rcases hlast hv with hold' | ⟨hj, rfl⟩
  · exact h i j hne u hold v hold'
  · exact (ht u (List.mem_of_getElem? hold)).2
  · exact (ht v (List.mem_of_getElem? hold')).1
  · exact absurd (hi.trans hj.symm) hne

theorem Apart.goOn (h : Apart R tasks)
    (hnext : ∀ t ∈ next, ∀ i : ℕ, i ≠ k → ∀ u ∈ tasks[i]?, R t u ∧ R u t) :
    Apart R (goOn tasks k next) := by
  intro i j hne t ht u hu
  cases next with
  | some v =>
    simp only [Tasks.goOn, Option.mem_def, List.getElem?_set] at ht hu
    split_ifs at ht with hi hlt
    · rw [if_neg (by rw [hi]; exact hne)] at hu
      obtain rfl := Option.some.inj ht
      exact (hnext v rfl j (hi ▸ hne.symm) u hu).1
    · split_ifs at hu with hj hlt
      · obtain rfl := Option.some.inj hu
        exact (hnext v rfl i (Ne.symm hi) t ht).2
      · exact h i j hne t ht u hu
  | none =>
    simp only [Tasks.goOn, Option.mem_def, List.getElem?_eraseIdx] at ht hu
    split_ifs at ht with hi <;> split_ifs at hu with hj
    · exact h i j hne t ht u hu
    · exact h i (j + 1) (by omega) t ht u hu
    · exact h (i + 1) j (by omega) t ht u hu
    · exact h (i + 1) (j + 1) (by omega) t ht u hu

end SendSelf.Tasks

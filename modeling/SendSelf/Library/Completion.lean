import Mathlib.Logic.Relation

/-!
# Runs that come to an end

A state from which every way of going on leads to a goal, in finitely many steps and
without getting stuck.
-/
namespace SendSelf

/-- All runs from the state reach the goal. -/
inductive Inevitable {σ : Type*} (step : σ → σ → Prop) (goal : σ → Prop) : σ → Prop
  | here {s : σ} : goal s → Inevitable step goal s
  | next {s t : σ} : step s t → (∀ u, step s u → Inevitable step goal u) → Inevitable step goal s

namespace Inevitable

variable {σ τ : Type*} {step : σ → σ → Prop} {goal goal' : σ → Prop} {s : σ}

/-- One goal on the way to another. -/
theorem bind (h : Inevitable step goal s) (hgoal : ∀ t, goal t → Inevitable step goal' t) :
    Inevitable step goal' s := by
  induction h with
  | here hs => exact hgoal _ hs
  | next hstep _ ih => exact .next hstep ih

theorem mono (h : Inevitable step goal s) (hgoal : ∀ t, goal t → goal' t) :
    Inevitable step goal' s :=
  h.bind fun t ht => .here (hgoal t ht)

/-- The only step. -/
theorem of_step {t : σ} (hstep : step s t) (honly : ∀ u, step s u → u = t)
    (h : Inevitable step goal t) :
    Inevitable step goal s := .next hstep fun u hu => honly u hu ▸ h

/-- Some run does reach the goal. -/
theorem exists_run (h : Inevitable step goal s) : ∃ t, Relation.ReflTransGen step s t ∧ goal t := by
  induction h with
  | here hs => exact ⟨_, .refl, hs⟩
  | next hstep _ ih =>
    obtain ⟨t, hrun, ht⟩ := ih _ hstep
    exact ⟨t, .head hstep hrun, ht⟩

/-- Two goals that nothing goes on from are reached together. -/
theorem and_final (h : Inevitable step goal s) (h' : Inevitable step goal' s)
    (hfinal : ∀ t u, goal t → ¬ step t u)
    (hfinal' : ∀ t u, goal' t → ¬ step t u) : Inevitable step (fun t => goal t ∧ goal' t) s := by
  induction h with
  | here hs =>
    cases h' with
    | here hs' => exact .here ⟨hs, hs'⟩
    | next hstep _ => exact absurd hstep (hfinal _ _ hs)
  | next hstep _ ih =>
    cases h' with
    | here hs' => exact absurd hstep (hfinal' _ _ hs')
    | next _ hall => exact .next hstep fun u hu => ih u hu (hall u hu)

end Inevitable
end SendSelf

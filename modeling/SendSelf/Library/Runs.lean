import Mathlib.Logic.Relation

/-!
# Guarded runs of an executable step function

A system is a step function `step s e : Option s`, where `none` says that the
event `e` is not enabled in `s`. A run is a list of events. A guard `ok s e`
looks at the state before a step, so that a statement can be about the runs all
of whose steps meet a condition; the unguarded runs are those of the guard which
is always true.
-/
namespace SendSelf.Runs

variable {σ ε : Type*} (step : σ → ε → Option σ) (ok : σ → ε → Prop)

/-- States reached from `s₀` by steps which all meet `ok`. -/
inductive ReachableVia (s₀ : σ) : σ → Prop
  | start : ReachableVia s₀ s₀
  | next {s t : σ} {e : ε} : ReachableVia s₀ s → ok s e → step s e = some t → ReachableVia s₀ t

/-- States reached by any enabled steps. -/
def Reachable (s₀ s : σ) : Prop := ReachableVia step (fun _ _ => True) s₀ s

/-- Replay a list of events; `none` as soon as one of them is not enabled. -/
def replay : σ → List ε → Option σ
  | s, [] => some s
  | s, e :: es => (step s e).bind fun t => replay t es

/-- Replay a list of events, stopping also at one which does not meet the guard. -/
def replayVia [∀ s e, Decidable (ok s e)] : σ → List ε → Option σ
  | s, [] => some s
  | s, e :: es => if ok s e then (step s e).bind fun t => replayVia t es else none

variable {step ok}

/-- What holds at the start and is kept by every guarded step holds all along
every guarded run. -/
theorem ReachableVia.invariant {I : σ → Prop} {s₀ s : σ} (h₀ : I s₀)
    (hstep : ∀ s e t, I s → ok s e → step s e = some t → I t)
    (h : ReachableVia step ok s₀ s) : I s := by
  induction h with
  | start => exact h₀
  | next _ hok hs ih => exact hstep _ _ _ ih hok hs

/-- An invariant may be proved with the help of another one. -/
theorem ReachableVia.invariant_with {I J : σ → Prop} {s₀ s : σ}
    (hI : ∀ s, ReachableVia step ok s₀ s → I s)
    (h₀ : J s₀) (hstep : ∀ s e t, I s → J s → ok s e → step s e = some t → J t)
    (h : ReachableVia step ok s₀ s) : J s := by
  induction h with
  | start => exact h₀
  | next hr hok hs ih => exact hstep _ _ _ (hI _ hr) ih hok hs

/-- Weakening the guard keeps every run. -/
theorem ReachableVia.mono {ok' : σ → ε → Prop} {s₀ s : σ} (hok : ∀ s e, ok s e → ok' s e)
    (h : ReachableVia step ok s₀ s) : ReachableVia step ok' s₀ s := by
  induction h with
  | start => exact .start
  | next _ ho hs ih => exact .next ih (hok _ _ ho) hs

/-- So does replacing it by one that follows from it in the states a run reaches. -/
theorem ReachableVia.mono_with {I : σ → Prop} {ok' : σ → ε → Prop} {s₀ s : σ} (h₀ : I s₀)
    (hstep : ∀ s e t, I s → ok s e → step s e = some t → I t) (hok : ∀ s e, I s → ok s e → ok' s e)
    (h : ReachableVia step ok s₀ s) : ReachableVia step ok' s₀ s := by
  induction h with
  | start => exact .start
  | next hr ho hs ih => exact .next ih (hok _ _ (hr.invariant h₀ hstep) ho) hs

theorem ReachableVia.reachable {s₀ s : σ} (h : ReachableVia step ok s₀ s) :
    Reachable step s₀ s := h.mono fun _ _ _ => trivial

theorem ReachableVia.trans {s₀ s t : σ} (h : ReachableVia step ok s₀ s)
    (h' : ReachableVia step ok s t) : ReachableVia step ok s₀ t := by
  induction h' with
  | start => exact h
  | next _ ho hs ih => exact .next ih ho hs

/-- A successful guarded replay ends in a state reached by a guarded run. -/
theorem reachableVia_of_replayVia [∀ s e, Decidable (ok s e)] {s t : σ} {es : List ε}
    (h : replayVia step ok s es = some t) : ReachableVia step ok s t := by
  induction es generalizing s with
  | nil =>
    obtain rfl : s = t := by simpa [replayVia] using h
    exact .start
  | cons e es ih =>
    by_cases ho : ok s e
    · simp only [replayVia, ho, if_true, Option.bind_eq_some_iff] at h
      obtain ⟨u, hu, ht⟩ := h
      exact (ReachableVia.next .start ho hu).trans (ih ht)
    · simp [replayVia, ho] at h

/-- A successful replay ends in a reachable state. -/
theorem reachable_of_replay {s t : σ} {es : List ε} (h : replay step s es = some t) :
    Reachable step s t := by
  induction es generalizing s with
  | nil =>
    obtain rfl : s = t := by simpa [replay] using h
    exact .start
  | cons e es ih =>
    simp only [replay, Option.bind_eq_some_iff] at h
    obtain ⟨u, hu, ht⟩ := h
    exact (ReachableVia.next .start trivial hu).trans (ih ht)

theorem replay_append {s : σ} {es fs : List ε} :
    replay step s (es ++ fs) = (replay step s es).bind fun t => replay step t fs := by
  induction es generalizing s with
  | nil => rfl
  | cons e es ih =>
    rw [List.cons_append, replay, replay, Option.bind_assoc]
    exact Option.bind_congr fun t _ => ih

/-- A replay which ends in a state with a decidable property gives a reachable
state with that property. -/
theorem exists_reachable_of_replay {s : σ} {es : List ε} {p : σ → Prop} [DecidablePred p]
    (h : (replay step s es).any (fun t => decide (p t)) = true) :
    ∃ t, Reachable step s t ∧ p t := by
  cases ht : replay step s es with
  | none => simp [ht] at h
  | some t => exact ⟨t, reachable_of_replay ht, by simpa [ht] using h⟩

end SendSelf.Runs

import SendSelf.Library.Runs

/-!
# Runs that keep a history

What a run has done so far is often not to be read off the state it has reached. A
recorded system steps as the system does, and each step adds to a history beside the
state. The history sees everything and decides nothing: a run of the system is a run
of the recorded system with the history left out, and the other way round.
-/
namespace SendSelf.Runs

variable {σ ε η : Type*}

/-- `note s e t h` is the history after a step from `s` to `t` that `h` came before. -/
def recorded (step : σ → ε → Option σ) (note : σ → ε → σ → η → η) (s : σ × η) (e : ε) :
    Option (σ × η) :=
  (step s.1 e).map fun t => (t, note s.1 e t s.2)

variable {step : σ → ε → Option σ} {note : σ → ε → σ → η → η}

theorem recorded_eq_some {s t : σ × η} {e : ε} :
    recorded step note s e = some t ↔ ∃ u, step s.1 e = some u ∧ t = (u, note s.1 e u s.2) := by
  rw [recorded, Option.map_eq_some_iff]
  exact exists_congr fun u => and_congr_right fun _ => eq_comm

/-- An invariant of a recorded run, when every step keeps it. -/
theorem ReachableVia.recorded_invariant {I : σ → η → Prop} {ok : σ × η → ε → Prop} {s₀ s : σ × η}
    (h₀ : I s₀.1 s₀.2)
    (hstep : ∀ s h e t, I s h → ok (s, h) e → step s e = some t → I t (note s e t h))
    (h : ReachableVia (Runs.recorded step note) ok s₀ s) : I s.1 s.2 := by
  refine h.invariant (I := fun s => I s.1 s.2) h₀ fun s e t hI ho hs => ?_
  obtain ⟨u, hu, rfl⟩ := recorded_eq_some.mp hs
  exact hstep s.1 s.2 e u hI ho hu

end SendSelf.Runs

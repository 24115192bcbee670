import Mathlib.Data.List.Basic

/-!
# Programs interrupted between two writes

A program that writes to a store is the list of its writes, each of which is
atomic. It may be interrupted after any number of them, and a step of it may
throw, which ends it there. What holds at an interruption follows from what every
write keeps and what one of them establishes.
-/
namespace SendSelf.Interrupt

variable {σ ω : Type*} (write : ω → σ → σ)

def run (ws : List ω) (s : σ) : σ := ws.foldl (fun s w => write w s) s

/-- The store when the program is interrupted after `k` writes. -/
def after (ws : List ω) (k : ℕ) (s : σ) : σ := run write (ws.take k) s

/-- The writes before the first step that throws. -/
def upTo : List (Option ω) → List ω
  | [] => []
  | none :: _ => []
  | some w :: steps => w :: upTo steps

variable {write}

theorem run_append {ws vs : List ω} {s : σ} :
    run write (ws ++ vs) s = run write vs (run write ws s) :=
  List.foldl_append

theorem run_cons {w : ω} {ws : List ω} {s : σ} :
    run write (w :: ws) s = run write ws (write w s) := rfl

/-- What every write keeps holds at the end. -/
theorem run_invariant {P : σ → Prop} {ws : List ω} {s : σ} (h : P s)
    (hkeep : ∀ w ∈ ws, ∀ s, P s → P (write w s)) : P (run write ws s) := by
  induction ws generalizing s with
  | nil => exact h
  | cons w ws ih =>
    rw [run_cons]
    exact ih (hkeep w (List.mem_cons_self ..) s h) fun v hv => hkeep v (List.mem_cons_of_mem _ hv)

/-- What one write establishes and every write keeps holds at the end. -/
theorem run_of_mem {P : σ → Prop} {ws : List ω} {w : ω} {s : σ} (hw : w ∈ ws)
    (hset : ∀ s, P (write w s))
    (hkeep : ∀ w ∈ ws, ∀ s, P s → P (write w s)) : P (run write ws s) := by
  induction ws generalizing s with
  | nil => cases hw
  | cons v ws ih =>
    rw [run_cons]
    rcases List.mem_cons.mp hw with rfl | hw
    · exact run_invariant (hset s) fun v hv => hkeep v (List.mem_cons_of_mem _ hv)
    · exact ih hw fun v hv => hkeep v (List.mem_cons_of_mem _ hv)

/-- An interruption comes before a write, or after it. -/
theorem take_cases (pre post : List ω) (w : ω) (k : ℕ) :
    (pre ++ w :: post).take k = pre.take k ∨ ∃ j,
    (pre ++ w :: post).take k = pre ++ w :: post.take j := by
  rcases Nat.lt_or_ge pre.length k with hlt | hge
  · right
    obtain ⟨j, rfl⟩ : ∃ j, k = pre.length + (j + 1) := ⟨k - pre.length - 1, by omega⟩
    exact ⟨j, by rw [List.take_length_add_append, List.take_succ_cons]⟩
  · exact Or.inl (List.take_append_of_le_length hge)

theorem mem_upTo {steps : List (Option ω)} {w : ω} (h : w ∈ upTo steps) : some w ∈ steps := by
  induction steps with
  | nil => cases h
  | cons step steps ih =>
    cases step with
    | none => cases h
    | some v =>
      rcases List.mem_cons.mp h with rfl | h
      · exact List.mem_cons_self ..
      · exact List.mem_cons_of_mem _ (ih h)

/-- What follows a part of a program runs when no step of the part throws. -/
theorem upTo_append (xs ys : List (Option ω)) : (none ∈ xs ∧ upTo (xs ++ ys) = upTo xs) ∨
    (none ∉ xs ∧ upTo (xs ++ ys) = upTo xs ++ upTo ys) := by
  induction xs with
  | nil => exact Or.inr ⟨List.not_mem_nil, rfl⟩
  | cons step xs ih =>
    cases step with
    | none => exact Or.inl ⟨List.mem_cons_self .., rfl⟩
    | some w =>
      refine ih.imp (fun h => ⟨List.mem_cons_of_mem _ h.1, ?_⟩) fun h => ⟨by simpa using h.1, ?_⟩
      · rw [List.cons_append, upTo, h.2, upTo]
      · rw [List.cons_append, upTo, h.2, upTo, List.cons_append]

theorem upTo_map_some (ws : List ω) : upTo (ws.map some) = ws := by
  induction ws with
  | nil => rfl
  | cons w ws ih => rw [List.map_cons, upTo, ih]

/-- Every write is reached when no step throws. -/
theorem mem_upTo_iff {steps : List (Option ω)} (h : none ∉ steps) {w : ω} :
    w ∈ upTo steps ↔ some w ∈ steps := by
  induction steps with
  | nil => simp [upTo]
  | cons step steps ih =>
    cases step with
    | none => exact absurd (List.mem_cons_self ..) h
    | some v => simp [upTo, ih fun hn => h (List.mem_cons_of_mem _ hn)]

/-- What every round of a loop keeps wherever it is interrupted, the loop keeps. -/
theorem after_flatMap_invariant {β : Type*} {P : σ → Prop} {f : β → List ω} {bs : List β}
    {k : ℕ} {s : σ} (h : P s) (hround : ∀ b ∈ bs, ∀ j s, P s → P (after write (f b) j s)) :
    P (after write (bs.flatMap f) k s) := by
  induction bs generalizing k s with
  | nil => simpa [after, run] using h
  | cons b bs ih =>
    have hwhole : P (run write (f b) s) := by
      have := hround b (List.mem_cons_self ..) (f b).length s h
      rwa [after, List.take_length] at this
    rw [List.flatMap_cons, after, List.take_append, run_append]
    rcases Nat.lt_or_ge k (f b).length with hlt | hge
    · rw [Nat.sub_eq_zero_of_le (Nat.le_of_lt hlt), List.take_zero]
      exact hround b (List.mem_cons_self ..) k s h
    · rw [List.take_of_length_le hge]
      exact ih hwhole fun c hc => hround c (List.mem_cons_of_mem _ hc)

end SendSelf.Interrupt

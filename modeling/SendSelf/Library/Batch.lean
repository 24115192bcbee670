import Mathlib.Tactic.Common

/-!
# Batches of statements

A statement turns a database into a new one and reports how many rows it
changed, or raises an error. A batch runs its statements one after another as a
single serial transaction: an error rolls everything back, while a guarded
statement which changes no row is not an error and rolls nothing back.
-/
namespace SendSelf

abbrev Statement (δ ε : Type*) := δ → Except ε (δ × ℕ)

variable {δ ε : Type*}

theorem bind_eq_ok {α β ε : Type} {x : Except ε α} {f : α → Except ε β} {b : β} :
    x >>= f = .ok b ↔ ∃ a, x = .ok a ∧ f a = .ok b := by
  cases x with
  | error e => simp [bind, Except.bind]
  | ok a => simp [bind, Except.bind]

theorem pure_eq_ok {α ε : Type} {a b : α} : (pure a : Except ε α) = .ok b ↔ a = b := by
  simp [pure, Except.pure]

/-- Run the statements in order, collecting the row counts. -/
def batch : List (Statement δ ε) → δ → Except ε (δ × List ℕ)
  | [], d => .ok (d, [])
  | s :: ss, d => (s d).bind fun p => (batch ss p.1).map fun q => (q.1, p.2 :: q.2)

/-- What a batch leaves behind: nothing at all when a statement raised an error. -/
def commit (ss : List (Statement δ ε)) (d : δ) : δ × Except ε (List ℕ) :=
  match batch ss d with
  | .error e => (d, .error e)
  | .ok (d', ns) => (d', .ok ns)

@[simp] theorem batch_nil (d : δ) : batch ([] : List (Statement δ ε)) d = .ok (d, []) := rfl

theorem batch_cons_ok {s : Statement δ ε} {ss : List (Statement δ ε)} {d d' : δ} {ns : List ℕ} :
    batch (s :: ss) d = .ok (d', ns) ↔
      ∃ d₁ n ms, s d = .ok (d₁, n) ∧ batch ss d₁ = .ok (d', ms) ∧ ns = n :: ms := by
  rw [batch]
  cases hs : s d with
  | error e => simp [Except.bind]
  | ok p =>
    cases hb : batch ss p.1 with
    | error e =>
      simp only [Except.bind, hb, Except.map, reduceCtorEq, Except.ok.injEq, false_iff]
      intro ⟨d₁, n, ms, h₁, h₂, _⟩
      subst h₁
      exact absurd (hb.symm.trans h₂) (by simp)
    | ok q =>
      simp only [Except.bind, hb, Except.map, Except.ok.injEq, Prod.mk.injEq]
      constructor
      · intro ⟨h₁, h₂⟩
        exact ⟨p.1, p.2, q.2, rfl, by rw [hb, ← h₁], h₂.symm⟩
      · intro ⟨d₁, n, ms, h₁, h₂, h₃⟩
        subst h₁
        have hq : q = (d', ms) := Except.ok.inj (hb.symm.trans h₂)
        subst hq
        exact ⟨rfl, h₃.symm⟩

/-- Two batches sent as one run one after the other, and share one rollback. -/
theorem batch_append (ss ts : List (Statement δ ε)) (d : δ) :
    batch (ss ++ ts) d =
      (batch ss d).bind fun p => (batch ts p.1).map fun q => (q.1, p.2 ++ q.2) := by
  induction ss generalizing d with
  | nil =>
    simp only [List.nil_append, batch_nil, Except.bind]
    cases batch ts d <;> rfl
  | cons s ss ih =>
    simp only [List.cons_append, batch, ih]
    cases s d with
    | error e => rfl
    | ok p =>
      simp only [Except.bind]
      cases batch ss p.1 with
      | error e => rfl
      | ok q =>
        simp only [Except.map]
        cases batch ts q.1 <;> rfl

theorem commit_error {ss : List (Statement δ ε)} {d : δ} {e : ε} (h : batch ss d = .error e) :
    commit ss d = (d, .error e) := by simp [commit, h]

theorem commit_ok {ss : List (Statement δ ε)} {d d' : δ} {ns : List ℕ}
    (h : batch ss d = .ok (d', ns)) : commit ss d = (d', .ok ns) := by simp [commit, h]

end SendSelf

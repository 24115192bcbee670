import Mathlib.Data.List.Range

/-!
# Values under a revision number

A value is created at its first revision, and an edit names the revision it was made
against: it is accepted only while that is the current one, and produces the next. A
value may be written again as it is, and may go away for good. What was ever written at
one revision is one value, and the accepted edits of a value form a single chain.
-/
namespace SendSelf

/-- An accepted edit: the revision it was made against, and the one it produced. -/
structure Edit (κ : Type*) where
  key : κ
  against : ℕ
  produced : ℕ
deriving DecidableEq, Repr

/-- The values that are there, all that were ever written, and the accepted edits. -/
structure Ledger (κ π : Type*) where
  now : κ → Option (ℕ × π)
  written : κ → ℕ → π → Prop
  edits : List (Edit κ)

namespace Ledger

variable {κ π : Type*} [DecidableEq κ]

def editsOf (edits : List (Edit κ)) (k : κ) : List (ℕ × ℕ) :=
  (edits.filter fun e => decide (e.key = k)).map fun e => (e.against, e.produced)

/-- So many edits, each made against what the one before produced. -/
def chain (n : ℕ) : List (ℕ × ℕ) := (List.range n).map fun i => (i + 1, i + 2)

theorem chain_succ (n : ℕ) : chain (n + 1) = chain n ++ [(n + 1, n + 2)] := by
  rw [chain, chain, List.range_succ, List.map_append, List.map_singleton]

structure Linear (l : Ledger κ π) : Prop where
  one : ∀ k r v w, l.written k r v → l.written k r w → v = w
  last : ∀ k r v, l.now k = some (r, v) → l.written k r v ∧ (∀ s w, l.written k s w → s ≤ r) ∧
    ∃ n, r = n + 1 ∧ editsOf l.edits k = chain n
  chained : ∀ k, ∃ n, editsOf l.edits k = chain n
  known : ∀ e ∈ l.edits, ∃ v, l.written e.key e.produced v

/-- What one step makes of the values and of the edits. -/
inductive Change (l : Ledger κ π) : (κ → Option (ℕ × π)) → List (Edit κ) → Prop
  | drop {now : κ → Option (ℕ × π)} : (∀ k x, now k = some x → l.now k = some x) →
      Change l now l.edits
  | create {now : κ → Option (ℕ × π)} {k : κ} {v : π} : (∀ r w, ¬ l.written k r w) →
      now k = some (1, v) →
      (∀ j, j ≠ k → now j = l.now j) → Change l now l.edits
  | edit {now : κ → Option (ℕ × π)} {k : κ} {r : ℕ} {v w : π} : l.now k = some (r, v) →
      now k = some (r + 1, w) →
      (∀ j, j ≠ k → now j = l.now j) → Change l now (l.edits ++ [⟨k, r, r + 1⟩])

theorem editsOf_append (edits : List (Edit κ)) (e : Edit κ) (k : κ) :
    editsOf (edits ++ [e]) k =
      editsOf edits k ++ if e.key = k then [(e.against, e.produced)] else [] := by
  unfold editsOf
  rw [List.filter_append, List.map_append]
  by_cases h : e.key = k <;> simp [h]

/-- Nothing was edited that was never written. -/
theorem Linear.editsOf_eq_nil {l : Ledger κ π} (h : Linear l) {k : κ}
    (hk : ∀ r w, ¬ l.written k r w) :
    editsOf l.edits k = [] := by
  rw [editsOf, List.map_eq_nil_iff, List.filter_eq_nil_iff]
  intro e he hkey
  obtain ⟨v, hv⟩ := h.known e he
  rw [decide_eq_true_eq] at hkey
  exact hk _ v (hkey ▸ hv)

/-- The ledger after a step in which what is there was written. -/
theorem Linear.change {l l' : Ledger κ π} (h : Linear l) (hchange : Change l l'.now l'.edits)
    (hwritten : ∀ k r v, l'.written k r v ↔ l.written k r v ∨ l'.now k = some (r, v)) :
    Linear l' := by
  obtain ⟨now, written, edits⟩ := l'
  dsimp only at hchange hwritten
  cases hchange with
  | drop hsub =>
    have hsame : ∀ k r v, written k r v ↔ l.written k r v := by
      intro k r v
      rw [hwritten]
      exact ⟨fun hw => hw.elim id fun hnow => (h.last k r v (hsub k _ hnow)).1, Or.inl⟩
    refine ⟨fun k r v w hv hw => ?_, fun k r v hnow => ?_, h.chained, fun e he => ?_⟩
    · exact h.one k r v w ((hsame k r v).mp hv) ((hsame k r w).mp hw)
    · obtain ⟨hw, hlast, hedits⟩ := h.last k r v (hsub k _ hnow)
      exact ⟨(hsame k r v).mpr hw, fun s w hs => hlast s w ((hsame k s w).mp hs), hedits⟩
    · obtain ⟨v, hv⟩ := h.known e he
      exact ⟨v, (hsame _ _ _).mpr hv⟩
  | @create k v hfree hnew hold =>
    have hother : ∀ {j r w}, j ≠ k → (written j r w ↔ l.written j r w) := by
      intro j r w hj
      rw [hwritten]
      exact ⟨fun hw => hw.elim id fun hnow => (h.last j r w (hold j hj ▸ hnow)).1, Or.inl⟩
    have hself : ∀ {r w}, written k r w ↔ (r, w) = (1, v) := by
      intro r w
      rw [hwritten, or_iff_right (hfree r w), hnew, Option.some_inj]
      exact eq_comm
    refine ⟨fun j r w w' hw hw' => ?_, fun j r w hnow => ?_, h.chained, fun e he => ?_⟩
    · by_cases hj : j = k
      · subst hj
        exact (Prod.mk.inj ((hself.mp hw).trans (hself.mp hw').symm)).2
      · exact h.one j r w w' ((hother hj).mp hw) ((hother hj).mp hw')
    · by_cases hj : j = k
      · subst hj
        obtain ⟨rfl, rfl⟩ := Prod.mk.inj (Option.some.inj (hnew.symm.trans hnow))
        exact ⟨hself.mpr rfl, fun s w hs => (Prod.mk.inj (hself.mp hs)).1.le, 0, rfl,
          h.editsOf_eq_nil hfree⟩
      · obtain ⟨hw', hlast, hedits⟩ := h.last j r w (hold j hj ▸ hnow)
        exact ⟨(hother hj).mpr hw', fun s u hs => hlast s u ((hother hj).mp hs), hedits⟩
    · obtain ⟨w, hw⟩ := h.known e he
      exact ⟨w, (hwritten _ _ _).mpr (Or.inl hw)⟩
  | @edit k r v w hnow hnew hold =>
    obtain ⟨hcurrent, hlast, n, rfl, hedits⟩ := h.last k r v hnow
    have hother : ∀ {j s u}, j ≠ k → (written j s u ↔ l.written j s u) := by
      intro j s u hj
      rw [hwritten]
      exact ⟨fun hu => hu.elim id fun hn => (h.last j s u (hold j hj ▸ hn)).1, Or.inl⟩
    have hself : ∀ {s u}, written k s u ↔ l.written k s u ∨ (s, u) = (n + 2, w) := by
      intro s u
      rw [hwritten, hnew, Option.some_inj, eq_comm]
    have hedits' : editsOf (l.edits ++ [⟨k, n + 1, n + 2⟩]) k = chain (n + 1) := by
      rw [editsOf_append, if_pos rfl, hedits, chain_succ]
    have hothers : ∀ {j}, j ≠ k →
        editsOf (l.edits ++ [⟨k, n + 1, n + 2⟩]) j = editsOf l.edits j := by
      intro j hj
      rw [editsOf_append, if_neg (fun he : k = j => hj he.symm), List.append_nil]
    have hfree : ∀ u, ¬ l.written k (n + 2) u := fun u hu => absurd (hlast _ u hu) (by omega)
    refine ⟨fun j s u u' hu hu' => ?_, fun j s u hu => ?_, fun j => ?_, fun e he => ?_⟩
    · by_cases hj : j = k
      · subst hj
        rcases hself.mp hu with hu | hu <;> rcases hself.mp hu' with hu' | hu'
        · exact h.one _ s u u' hu hu'
        · obtain ⟨rfl, rfl⟩ := Prod.mk.inj hu'
          exact absurd hu (hfree u)
        · obtain ⟨rfl, rfl⟩ := Prod.mk.inj hu
          exact absurd hu' (hfree u')
        · exact (Prod.mk.inj (hu.trans hu'.symm)).2
      · exact h.one j s u u' ((hother hj).mp hu) ((hother hj).mp hu')
    · by_cases hj : j = k
      · subst hj
        obtain ⟨rfl, rfl⟩ := Prod.mk.inj (Option.some.inj (hnew.symm.trans hu))
        refine ⟨hself.mpr (Or.inr rfl), fun s u hs => ?_, n + 1, rfl, hedits'⟩
        rcases hself.mp hs with hs | hs
        · exact (hlast s u hs).trans (by omega)
        · exact (Prod.mk.inj hs).1.le
      · obtain ⟨hw, hlast', hedits'⟩ := h.last j s u (hold j hj ▸ hu)
        exact ⟨(hother hj).mpr hw, fun t x ht => hlast' t x ((hother hj).mp ht),
          (hothers hj).symm ▸ hedits'⟩
    · by_cases hj : j = k
      · exact ⟨n + 1, hj ▸ hedits'⟩
      · exact (hothers hj).symm ▸ h.chained j
    · rcases List.mem_append.mp he with hold | hnew'
      · obtain ⟨u, hu⟩ := h.known e hold
        exact ⟨u, (hwritten _ _ _).mpr (Or.inl hu)⟩
      · obtain rfl := List.mem_singleton.mp hnew'
        exact ⟨w, hself.mpr (Or.inr rfl)⟩

end Ledger
end SendSelf

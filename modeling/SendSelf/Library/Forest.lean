import Mathlib.Data.Finset.Card
import Mathlib.Data.Fintype.Pigeonhole
import Mathlib.Logic.Relation

/-!
# Forests given by a parent function

Each node has at most one parent. What is above a node is found by climbing, which
as many steps as there are nodes with a parent are enough for. A forest has no node
above itself, and it stays one when a node is hung under a node that it is not above.
-/
namespace SendSelf.Forest

variable {κ : Type*} (parent : κ → Option κ)

/-- `a` is `b`, or above it. -/
def Above (a b : κ) : Prop := Relation.ReflTransGen (fun x y => parent x = some y) b a

def Acyclic : Prop := ∀ x y, parent x = some y → ¬ Above parent x y

/-- The node reached by climbing so many steps. -/
def ancestor : ℕ → κ → Option κ
  | 0, x => some x
  | n + 1, x => (parent x).bind (ancestor n)

/-- Whether `a` is met within so many steps. -/
def climbs [DecidableEq κ] (a : κ) : ℕ → κ → Bool
  | 0, x => decide (x = a)
  | n + 1, x => decide (x = a) || (parent x).any (climbs a n)

variable {parent}

theorem above_refl (a : κ) : Above parent a a := .refl

theorem Above.trans {a b c : κ} (h : Above parent a b) (h' : Above parent b c) : Above parent a c :=
  Relation.ReflTransGen.trans h' h

theorem above_of_parent {x y : κ} (h : parent x = some y) : Above parent y x := .single h

/-- What is above a node is the node itself, or above its parent. -/
theorem above_iff {a x : κ} :
    Above parent a x ↔ x = a ∨ ∃ y, parent x = some y ∧ Above parent a y := by
  constructor
  · intro h
    rcases Relation.ReflTransGen.cases_head h with rfl | ⟨y, hy, h⟩
    · exact Or.inl rfl
    · exact Or.inr ⟨y, hy, h⟩
  · intro h
    rcases h with rfl | ⟨y, hy, h⟩
    · exact .refl
    · exact .head hy h

theorem above_iff_ancestor {a x : κ} : Above parent a x ↔ ∃ n, ancestor parent n x = some a := by
  constructor
  · intro h
    induction h using Relation.ReflTransGen.head_induction_on with
    | refl => exact ⟨0, rfl⟩
    | head hstep _ ih =>
      obtain ⟨n, hn⟩ := ih
      exact ⟨n + 1, by rw [ancestor, hstep, Option.bind_some, hn]⟩
  · intro ⟨n, hn⟩
    induction n generalizing x with
    | zero => exact above_iff.mpr (Or.inl (Option.some.inj hn))
    | succ n ih =>
      rw [ancestor, Option.bind_eq_some_iff] at hn
      obtain ⟨y, hy, hn⟩ := hn
      exact above_iff.mpr (Or.inr ⟨y, hy, ih hn⟩)

theorem ancestor_add {m n : ℕ} {x : κ} :
    ancestor parent (m + n) x = (ancestor parent m x).bind (ancestor parent n) := by
  induction m generalizing x with
  | zero => simp [ancestor]
  | succ m ih =>
    rw [Nat.add_right_comm, ancestor, ancestor, Option.bind_assoc]
    exact congrArg _ (funext fun y => ih)

section Climbing

variable [DecidableEq κ]

theorem climbs_iff_ancestor {a x : κ} {n : ℕ} :
    climbs parent a n x = true ↔ ∃ k ≤ n, ancestor parent k x = some a := by
  induction n generalizing x with
  | zero =>
    simp only [climbs, decide_eq_true_eq, Nat.le_zero]
    exact ⟨fun h => ⟨0, rfl, by rw [h]; rfl⟩, fun ⟨k, hk, h⟩ => by
      subst hk; exact Option.some.inj h⟩
  | succ n ih =>
    simp only [climbs, Bool.or_eq_true, decide_eq_true_eq, Option.any_eq_true]
    constructor
    · intro h
      rcases h with rfl | ⟨y, hy, h⟩
      · exact ⟨0, by omega, rfl⟩
      · obtain ⟨k, hk, h⟩ := ih.mp h
        exact ⟨k + 1, by omega, by rw [ancestor, hy, Option.bind_some, h]⟩
    · intro ⟨k, hk, h⟩
      cases k with
      | zero => exact Or.inl (Option.some.inj h)
      | succ k =>
        rw [ancestor, Option.bind_eq_some_iff] at h
        obtain ⟨y, hy, h⟩ := h
        exact Or.inr ⟨y, hy, ih.mpr ⟨k, by omega, h⟩⟩

/-- A shortest climb meets no node twice, so it is no longer than there are nodes. -/
theorem climbs_iff {a x : κ} {nodes : Finset κ} {n : ℕ}
    (hnodes : ∀ x y, parent x = some y → x ∈ nodes)
    (hn : nodes.card ≤ n) : climbs parent a n x = true ↔ Above parent a x := by
  classical
  rw [climbs_iff_ancestor, above_iff_ancestor]
  refine ⟨fun ⟨k, _, h⟩ => ⟨k, h⟩, fun h => ?_⟩
  refine ⟨Nat.find h, le_trans ?_ hn, Nat.find_spec h⟩
  have hway : ∀ i : Fin (Nat.find h), ∃ y ∈ nodes, ancestor parent i x = some y := by
    intro i
    have hsplit : ancestor parent (i + (Nat.find h - i)) x = some a := by
      rw [Nat.add_sub_cancel' i.isLt.le]
      exact Nat.find_spec h
    rw [ancestor_add, Option.bind_eq_some_iff] at hsplit
    obtain ⟨y, hy, hrest⟩ := hsplit
    obtain ⟨m, hm⟩ : ∃ m, Nat.find h - i = m + 1 := ⟨Nat.find h - i - 1, by omega⟩
    rw [hm, ancestor, Option.bind_eq_some_iff] at hrest
    obtain ⟨z, hz, _⟩ := hrest
    exact ⟨y, hnodes y z hz, hy⟩
  choose way hmem hway using hway
  have hinj : Function.Injective way := by
    intro i j hij
    by_contra hne
    wlog hlt : i < j generalizing i j
    · exact this hij.symm (Ne.symm hne) (lt_of_le_of_ne (not_lt.mp hlt) (Ne.symm hne))
    have hshort : ancestor parent (i + (Nat.find h - j)) x = some a := by
      rw [ancestor_add, hway i, hij, ← hway j, ← ancestor_add, Nat.add_sub_cancel' j.isLt.le]
      exact Nat.find_spec h
    exact Nat.find_min h (by omega) hshort
  calc Nat.find h = Fintype.card (Fin (Nat.find h)) := (Fintype.card_fin _).symm
    _ = (Finset.univ.map ⟨way, hinj⟩).card := (Finset.card_map _).symm
    _ ≤ nodes.card := Finset.card_le_card fun y hy => by
        obtain ⟨i, _, rfl⟩ := Finset.mem_map.mp hy
        exact hmem i

end Climbing

theorem Above.mono {parent' : κ → Option κ}
    (hsub : ∀ x y, parent' x = some y → parent x = some y) {a b : κ}
    (h : Above parent' a b) : Above parent a b := by
  induction h using Relation.ReflTransGen.head_induction_on with
  | refl => exact above_refl _
  | head hstep _ ih => exact ih.trans (above_of_parent (hsub _ _ hstep))

/-- Leaving out edges. -/
theorem Acyclic.mono {parent' : κ → Option κ} (h : Acyclic parent)
    (hsub : ∀ x y, parent' x = some y → parent x = some y) : Acyclic parent' :=
  fun x y hxy habove => h x y (hsub x y hxy) (habove.mono hsub)

/-- Whoever climbs from a node of a cycle stays on it. -/
theorem above_of_cycle {x y n : κ} (hxy : parent x = some y) (hcycle : Above parent x y)
    (hn : Above parent n y) : Above parent x n := by
  induction hn with
  | refl => exact hcycle
  | tail _ hstep ih =>
    rcases above_iff.mp ih with rfl | ⟨z, hz, habove⟩
    · obtain rfl := Option.some.inj (hstep.symm.trans hxy)
      exact hcycle
    · obtain rfl := Option.some.inj (hstep.symm.trans hz)
      exact habove

/-- Where nothing on the way up changes. -/
theorem Above.congr {parent' : κ → Option κ} {a x : κ} (h : Above parent a x)
    (hsame : ∀ z, Above parent z x → parent' z = parent z) : Above parent' a x := by
  induction h using Relation.ReflTransGen.head_induction_on with
  | refl => exact above_refl _
  | @head x y hstep _ ih =>
    have hx : parent' x = some y := (hsame x (above_refl x)).trans hstep
    exact (ih fun z hz => hsame z (hz.trans (above_of_parent hstep))).trans (above_of_parent hx)

/-- Of two nodes above the same one, one is above the other. -/
theorem above_total {a b x : κ} (ha : Above parent a x) (hb : Above parent b x) :
    Above parent a b ∨ Above parent b a := by
  induction ha using Relation.ReflTransGen.head_induction_on with
  | refl => exact Or.inr hb
  | @head x y hstep hrest ih =>
    rcases above_iff.mp hb with rfl | ⟨z, hz, hb⟩
    · exact Or.inl (Above.trans hrest (above_of_parent hstep))
    · obtain rfl := Option.some.inj (hstep.symm.trans hz)
      exact ih hb

theorem above_leaf {n x : κ} (hn : ∀ y, parent y ≠ some n) (h : Above parent n x) : x = n := by
  rcases Relation.ReflTransGen.cases_tail h with he | ⟨y, _, hy⟩
  · exact he.symm
  · exact absurd hy (hn y)

/-- Climbing in a finite forest ends. -/
theorem Acyclic.exists_top (h : Acyclic parent) {nodes : Finset κ}
    (hnodes : ∀ x y, parent x = some y → x ∈ nodes) (x : κ) :
    ∃ a, Above parent a x ∧ parent a = none := by
  by_contra hnone
  have hup : ∀ a : {a // Above parent a x}, ∃ b : {b // Above parent b x},
      parent a.1 = some b.1 := by
    intro ⟨a, ha⟩
    cases hpa : parent a with
    | none => exact absurd ⟨a, ha, hpa⟩ hnone
    | some b => exact ⟨⟨b, (above_of_parent hpa).trans ha⟩, rfl⟩
  choose up hup using hup
  let way : ℕ → {a // Above parent a x} := fun n => up^[n] ⟨x, above_refl x⟩
  have hway : ∀ n, parent (way n).1 = some (way (n + 1)).1 := fun n => by
    simp only [way, Function.iterate_succ_apply']
    exact hup _
  have habove : ∀ m n, Above parent (way (n + m)).1 (way n).1 := by
    intro m n
    induction m with
    | zero => exact above_refl _
    | succ m ih => exact (above_of_parent (hway (n + m))).trans ih
  obtain ⟨i, j, hij, hlt⟩ : ∃ i j, (way i).1 = (way j).1 ∧ i < j := by
    obtain ⟨i, j, hne, he⟩ := Finite.exists_ne_map_eq_of_infinite
      fun n => (⟨(way n).1, hnodes _ _ (hway n)⟩ : nodes)
    have he' : (way i).1 = (way j).1 := (Subtype.mk.injEq ..).mp he
    rcases lt_or_gt_of_ne hne with hlt | hlt
    · exact ⟨i, j, he', hlt⟩
    · exact ⟨j, i, he'.symm, hlt⟩
  have hcycle := habove (j - (i + 1)) (i + 1)
  rw [Nat.add_sub_cancel' hlt, ← hij] at hcycle
  exact h _ _ (hway i) hcycle

variable [DecidableEq κ]

/-- Above a node that the changed one is not above, nothing changes. -/
theorem above_update {a x n : κ} {p : Option κ} (h : Above (Function.update parent n p) a x)
    (hn : ¬ Above parent n x) : Above parent a x := by
  induction h using Relation.ReflTransGen.head_induction_on with
  | refl => exact above_refl _
  | @head x y hstep hrest ih =>
    have hx : x ≠ n := fun he => hn (he ▸ above_refl _)
    rw [Function.update_of_ne hx] at hstep
    exact (ih fun hy => hn (hy.trans (above_of_parent hstep))).trans (above_of_parent hstep)

theorem above_update_of_not {a x n : κ} {p : Option κ} (h : Above parent a x)
    (hn : ¬ Above parent n x) :
    Above (Function.update parent n p) a x :=
  h.congr fun z hz => Function.update_of_ne (fun (he : z = n) => hn (he ▸ hz)) ..

/-- What is above a node afterwards was so before, or the changed node was and the rest
is above its new parent. -/
theorem above_update_cases {a x n : κ} {p : Option κ} (h : Above (Function.update parent n p) a x) :
    Above parent a x ∨
      (Above parent n x ∧ ∃ q, p = some q ∧ Above (Function.update parent n p) a q) := by
  induction h using Relation.ReflTransGen.head_induction_on with
  | refl => exact Or.inl (above_refl _)
  | @head x y hstep hrest ih =>
    by_cases hx : x = n
    · subst hx
      rw [Function.update_self] at hstep
      exact Or.inr ⟨above_refl _, y, hstep, hrest⟩
    · rw [Function.update_of_ne hx] at hstep
      exact ih.imp (fun h => h.trans (above_of_parent hstep))
        fun ⟨h, hq⟩ => ⟨h.trans (above_of_parent hstep), hq⟩

/-- The way up to a node below the changed one stays. -/
theorem Acyclic.above_below (h : Acyclic parent) {a x n : κ} {p : Option κ} (ha : Above parent a x)
    (hn : Above parent n a) : Above (Function.update parent n p) a x := by
  induction ha using Relation.ReflTransGen.head_induction_on with
  | refl => exact above_refl _
  | @head x y hstep hrest ih =>
    by_cases hx : x = n
    · exact absurd (hn.trans hrest) (h x y hstep <| hx ▸ ·)
    · exact ih.trans (above_of_parent (by rw [Function.update_of_ne hx, hstep]))

/-- The way up to the changed node stays. -/
theorem above_update_self {x n : κ} {p : Option κ} (h : Above parent n x) :
    Above (Function.update parent n p) n x := by
  induction h using Relation.ReflTransGen.head_induction_on with
  | refl => exact above_refl _
  | @head x y hstep _ ih =>
    by_cases hx : x = n
    · exact hx ▸ above_refl _
    · exact ih.trans (above_of_parent (by rw [Function.update_of_ne hx, hstep]))

/-- A node hung under one that it is not above. -/
theorem Acyclic.update (h : Acyclic parent) {n : κ} {p : Option κ}
    (hp : ∀ y, p = some y → ¬ Above parent n y) : Acyclic (Function.update parent n p) := by
  have hself : ∀ y, p = some y → ¬ Above (Function.update parent n p) n y :=
    fun y hy habove => hp y hy (above_update habove (hp y hy))
  intro x y hxy habove
  by_cases hx : x = n
  · subst hx
    rw [Function.update_self] at hxy
    exact hself y hxy habove
  · by_cases hn : Above parent n y
    · have hny := above_update_self (p := p) hn
      rcases above_iff.mp (above_of_cycle hxy habove hny) with he | ⟨z, hz, hxz⟩
      · exact hx he.symm
      · rw [Function.update_self] at hz
        exact hself z hz (hny.trans ((above_of_parent hxy).trans hxz))
    · rw [Function.update_of_ne hx] at hxy
      exact h x y hxy (above_update habove hn)

/-- What hangs below a node that is moved out from under another one is not below that one
any more. -/
theorem Acyclic.moved_out (h : Acyclic parent) {a n x : κ} {p : Option κ} (hin : Above parent a n)
    (hne : n ≠ a)
    (hp : ∀ q, p = some q → ¬ Above parent a q) (hx : Above (Function.update parent n p) n x) :
    ¬ Above (Function.update parent n p) a x := by
  intro ha
  rcases above_total ha hx with hup | hdown
  · rcases above_iff.mp hup with he | ⟨q, hq, haq⟩
    · exact hne he
    · rw [Function.update_self] at hq
      exact hp q hq (above_update haq fun hnq => hp q hq (hin.trans hnq))
  · have hback : Above parent n a := by
      rcases above_update_cases hdown with hold | ⟨hold, _⟩
      · exact hold
      · exact hold
    rcases above_iff.mp hin with he | ⟨y, hy, hay⟩
    · exact hne he
    · exact h n y hy (hback.trans hay)

end SendSelf.Forest

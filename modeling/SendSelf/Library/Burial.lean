import SendSelf.Library.Forest

/-!
# Forests whose nodes are buried

A node is hung under a living one, moved, and buried; what is buried stays in its place
until it is forgotten. A purge of a node buries it and what is below it, one node after
the other, while the others go on hanging and moving nodes. What such a tree keeps is
that the forest stays one, that below a purged node nothing lives again, and that each
living node has living nodes above it, or a purge at work above the buried ones.
-/
namespace SendSelf

structure Node (κ : Type*) where
  parent : Option κ
  folder : Bool
  removedAt : Option ℕ

/-- The nodes that are there, by name. -/
def Tree (κ : Type*) : Type _ := κ → Option (Node κ)

namespace Tree
open Forest

variable {κ : Type*}

def parent (t : Tree κ) (x : κ) : Option κ := (t x).bind Node.parent

def Live (t : Tree κ) (x : κ) : Prop := ∃ n, t x = some n ∧ n.removedAt = none

def LiveFolder (t : Tree κ) (x : κ) : Prop :=
  ∃ n, t x = some n ∧ n.removedAt = none ∧ n.folder = true

/-- Nothing lives below the node, nor does it. -/
def Empty (t : Tree κ) (x : κ) : Prop := ∀ y, t.Live y → ¬ Above t.parent x y

/-- What is no more is in `lost`. -/
structure Grown (lost : κ → Prop) (t : Tree κ) : Prop where
  acyclic : Acyclic t.parent
  parents : ∀ x p, t.parent x = some p → (∃ n, t p = some n ∧ n.folder = true) ∨
    (t p = none ∧ lost p)

/-- Above a living node all nodes are there, and a purge that was already at work when a
buried one was buried is so still. -/
def Covered (purges : κ → ℕ → Prop) (t : Tree κ) : Prop :=
  ∀ y, t.Live y → ∀ a, Above t.parent a y → ∃ n, t a = some n ∧
    ∀ d, n.removedAt = some d → ∃ x s, purges x s ∧ s ≤ d ∧ Above t.parent x a

variable {t : Tree κ} {lost : κ → Prop} {purges : κ → ℕ → Prop}

theorem Grown.mono {lost' : κ → Prop} (h : Grown lost t) (hsub : ∀ x, lost x → lost' x) :
    Grown lost' t :=
  ⟨h.acyclic, fun x p hp => (h.parents x p hp).imp_right (And.imp_right (hsub p))⟩

theorem LiveFolder.live {x : κ} (h : t.LiveFolder x) : t.Live x := by
  obtain ⟨n, hn, hlive, _⟩ := h
  exact ⟨n, hn, hlive⟩

theorem Covered.mono {purges' : κ → ℕ → Prop} (h : Covered purges t)
    (hsub : ∀ x s, purges x s → purges' x s) :
    Covered purges' t := by
  intro y hy a ha
  obtain ⟨n, hn, hcover⟩ := h y hy a ha
  refine ⟨n, hn, fun d hd => ?_⟩
  obtain ⟨x, s, hx, hrest⟩ := hcover d hd
  exact ⟨x, s, hsub x s hx, hrest⟩

/-- A purge that leaves nothing alive below its root is not missed. -/
theorem Covered.leave {purges' : κ → ℕ → Prop} {root : κ} (h : Covered purges t)
    (hempty : t.Empty root)
    (hsub : ∀ x s, purges x s → x ≠ root → purges' x s) : Covered purges' t := by
  intro y hy a ha
  obtain ⟨n, hn, hcover⟩ := h y hy a ha
  refine ⟨n, hn, fun d hd => ?_⟩
  obtain ⟨x, s, hx, hs, habove⟩ := hcover d hd
  refine ⟨x, s, hsub x s hx fun he => ?_, hs, habove⟩
  exact hempty y hy (he ▸ habove.trans ha)

/-- With no purge at work, above a living node everything lives, and it is all folders. -/
theorem Covered.all_live (h : Covered purges t) (hnone : ∀ x s, ¬ purges x s) {y a : κ}
    (hy : t.Live y) (ha : Above t.parent a y) : t.Live a := by
  obtain ⟨n, hn, hcover⟩ := h y hy a ha
  cases hd : n.removedAt with
  | none => exact ⟨n, hn, hd⟩
  | some d =>
    obtain ⟨x, s, hx, _⟩ := hcover d hd
    exact absurd hx (hnone x s)

/-- A node above another one is a folder. -/
theorem Grown.folder (h : Grown lost t) {y a : κ} (ha : Above t.parent a y) (hne : a ≠ y)
    {n : Node κ} (hn : t a = some n) : n.folder = true := by
  rcases Relation.ReflTransGen.cases_tail ha with he | ⟨z, _, hz⟩
  · exact absurd he hne
  · rcases h.parents z a hz with ⟨m, hm, hfolder⟩ | ⟨hnone, _⟩
    · rwa [Option.some.inj (hn.symm.trans hm)]
    · exact absurd (hnone.symm.trans hn) (Option.some_ne_none n).symm

section Forgetting

variable {gone : Node κ → Bool}

def forgotten (t : Tree κ) (gone : Node κ → Bool) : Tree κ := fun x => (t x).filter fun n => !gone n

theorem forgotten_eq_some {x : κ} {n : Node κ} :
    t.forgotten gone x = some n ↔ t x = some n ∧ gone n = false := by
  rw [forgotten, Option.filter_eq_some_iff, Bool.not_eq_true']

theorem parent_of_forgotten {x y : κ} (h : (t.forgotten gone).parent x = some y) :
    t.parent x = some y := by
  obtain ⟨n, hn, hy⟩ := Option.bind_eq_some_iff.mp h
  rw [parent, (forgotten_eq_some.mp hn).1]
  exact hy

theorem live_of_forgotten {y : κ} (h : (t.forgotten gone).Live y) : t.Live y := by
  obtain ⟨n, hn, hlive⟩ := h
  exact ⟨n, (forgotten_eq_some.mp hn).1, hlive⟩

theorem Grown.forgotten {lost' : κ → Prop} (hg : Grown lost t) (hsub : ∀ x, lost x → lost' x)
    (hlost : ∀ x n, t x = some n → gone n = true → lost' x) : Grown lost' (t.forgotten gone) where
  acyclic := hg.acyclic.mono fun _ _ => parent_of_forgotten
  parents := fun y p hy => by
    rcases hg.parents y p (parent_of_forgotten hy) with ⟨n, hn, hfolder⟩ | ⟨hnone, hp⟩
    · cases hgone : gone n with
      | true =>
        exact Or.inr ⟨by simp [Tree.forgotten, hn, Option.filter, hgone], hlost p n hn hgone⟩
      | false => exact Or.inl ⟨n, forgotten_eq_some.mpr ⟨hn, hgone⟩, hfolder⟩
    · exact Or.inr ⟨by rw [Tree.forgotten, hnone]; rfl, hsub p hp⟩

theorem Empty.forgotten {root : κ} (he : t.Empty root) : (t.forgotten gone).Empty root :=
  fun y hy habove => he y (live_of_forgotten hy) (habove.mono fun _ _ => parent_of_forgotten)

/-- Only what was buried before every purge at work is forgotten. -/
theorem Covered.forgotten (hc : Covered purges t)
    (hold : ∀ x n, t x = some n → gone n = true → ∃ d, n.removedAt = some d ∧ ∀ z s,
      purges z s → d < s) :
    Covered purges (t.forgotten gone) := by
  have hkept : ∀ y, t.Live y → ∀ a, Above t.parent a y → t.forgotten gone a = t a := by
    intro y hy a ha
    obtain ⟨n, hn, hcover⟩ := hc y hy a ha
    have hstays : gone n = false := by
      rw [Bool.eq_false_iff]
      intro hgone
      obtain ⟨d, hd, hbefore⟩ := hold a n hn hgone
      obtain ⟨z, s, hz, hs, _⟩ := hcover d hd
      exact absurd (hbefore z s hz) (not_lt.mpr hs)
    rw [hn]
    exact forgotten_eq_some.mpr ⟨hn, hstays⟩
  intro y hy a ha
  have hy' := live_of_forgotten hy
  have ha' : Above t.parent a y := ha.mono fun _ _ => parent_of_forgotten
  obtain ⟨n, hn, hcover⟩ := hc y hy' a ha'
  refine ⟨n, (hkept y hy' a ha').trans hn, fun d hd => ?_⟩
  obtain ⟨x, s, hx, hs, hxa⟩ := hcover d hd
  refine ⟨x, s, hx, hs, hxa.congr fun z hz => ?_⟩
  rw [parent, parent, hkept y hy' z (hz.trans ha')]

end Forgetting

variable [DecidableEq κ]

/-- One node is put in place. -/
def set (t : Tree κ) (x : κ) (n : Node κ) : Tree κ := Function.update t x (some n)

theorem set_self (x : κ) (n : Node κ) : t.set x n x = some n := Function.update_self ..

theorem set_of_ne {x y : κ} (h : y ≠ x) (n : Node κ) : t.set x n y = t y :=
  Function.update_of_ne h ..

theorem parent_set (x : κ) (n : Node κ) :
    (t.set x n).parent = Function.update t.parent x n.parent := by
  funext y
  by_cases hy : y = x
  · subst hy
    rw [parent, set_self, Option.bind_some, Function.update_self]
  · rw [parent, set_of_ne hy, Function.update_of_ne hy, parent]

section Hanging

variable {x : κ} {n : Node κ}

/-- The name is free, and the place is alive. -/
structure Hangs (lost : κ → Prop) (t : Tree κ) (x : κ) (n : Node κ) : Prop where
  free : t x = none
  unused : ¬ lost x
  live : n.removedAt = none
  place : ∀ p, n.parent = some p → t.LiveFolder p

omit [DecidableEq κ] in
theorem Hangs.childless (h : Hangs lost t x n) (hg : Grown lost t) (y : κ) :
    t.parent y ≠ some x := by
  intro hy
  rcases hg.parents y x hy with ⟨m, hm, _⟩ | ⟨_, hlost⟩
  · exact absurd (h.free.symm.trans hm) (Option.some_ne_none m).symm
  · exact h.unused hlost

omit [DecidableEq κ] in
/-- The place is another node, which the new one is not above. -/
theorem Hangs.not_above (h : Hangs lost t x n) (hg : Grown lost t) {y : κ} (hy : t.Live y) :
    ¬ Above t.parent x y := by
  intro habove
  obtain rfl := above_leaf (h.childless hg) habove
  obtain ⟨m, hm, _⟩ := hy
  exact absurd (h.free.symm.trans hm) (Option.some_ne_none m).symm

theorem Hangs.grown (h : Hangs lost t x n) (hg : Grown lost t) : Grown lost (t.set x n) where
  acyclic := by
    rw [parent_set]
    exact hg.acyclic.update fun p hp => h.not_above hg (h.place p hp).live
  parents := fun y p hy => by
    rw [parent_set] at hy
    by_cases hyx : y = x
    · subst hyx
      rw [Function.update_self] at hy
      obtain ⟨m, hm, hlive, hfolder⟩ := h.place p hy
      have hp : p ≠ y := fun he => h.not_above hg (h.place p hy).live (he ▸ above_refl _)
      exact Or.inl ⟨m, (set_of_ne hp n).trans hm, hfolder⟩
    · rw [Function.update_of_ne hyx] at hy
      have hp : p ≠ x := fun he => h.childless hg y (he ▸ hy)
      rw [set_of_ne hp]
      exact hg.parents y p hy

/-- The living nodes, and what is above them. -/
theorem Hangs.live_cases (h : Hangs lost t x n) (hg : Grown lost t) {y : κ}
    (hy : (t.set x n).Live y) :
    y = x ∨ (t.Live y ∧ ∀ a, Above (t.set x n).parent a y → Above t.parent a y) := by
  by_cases hyx : y = x
  · exact Or.inl hyx
  · obtain ⟨m, hm, hlive⟩ := hy
    rw [set_of_ne hyx] at hm
    refine Or.inr ⟨⟨m, hm, hlive⟩, fun a ha => ?_⟩
    rw [parent_set] at ha
    exact above_update ha (h.not_above hg ⟨m, hm, hlive⟩)

theorem Hangs.above_new (h : Hangs lost t x n) (hg : Grown lost t) {a : κ}
    (ha : Above (t.set x n).parent a x) :
    a = x ∨ ∃ p, n.parent = some p ∧ Above t.parent a p := by
  rw [parent_set] at ha
  rcases above_iff.mp ha with he | ⟨p, hp, hap⟩
  · exact Or.inl he.symm
  · rw [Function.update_self] at hp
    exact Or.inr ⟨p, hp, above_update hap (h.not_above hg (h.place p hp).live)⟩

theorem Hangs.empty (h : Hangs lost t x n) (hg : Grown lost t) {root : κ} (he : t.Empty root)
    (hne : root ≠ x) :
    (t.set x n).Empty root := by
  intro y hy habove
  rcases h.live_cases hg hy with rfl | ⟨hlive, hsub⟩
  · rcases h.above_new hg habove with hroot | ⟨p, hp, habove⟩
    · exact hne hroot
    · exact he p (h.place p hp).live habove
  · exact he y hlive (hsub root habove)

theorem Hangs.covered (h : Hangs lost t x n) (hg : Grown lost t) (hc : Covered purges t) :
    Covered purges (t.set x n) := by
  have hold : ∀ y, t.Live y → ∀ a, Above t.parent a y → ∃ m, t.set x n a = some m ∧
      ∀ d, m.removedAt = some d → ∃ z s, purges z s ∧ s ≤ d ∧ Above (t.set x n).parent z a := by
    intro y hy a ha
    have hnot : ¬ Above t.parent x a := fun hxa => h.not_above hg hy (hxa.trans ha)
    obtain ⟨m, hm, hcover⟩ := hc y hy a ha
    have hax : a ≠ x := fun he => hnot (he ▸ above_refl _)
    refine ⟨m, (set_of_ne hax n).trans hm, fun d hd => ?_⟩
    obtain ⟨z, s, hz, hs, hza⟩ := hcover d hd
    refine ⟨z, s, hz, hs, ?_⟩
    rw [parent_set]
    exact above_update_of_not hza hnot
  intro y hy a ha
  rcases h.live_cases hg hy with rfl | ⟨hlive, hsub⟩
  · rcases h.above_new hg ha with rfl | ⟨p, hp, hap⟩
    · exact ⟨n, set_self a n,
        fun d hd => absurd (h.live.symm.trans hd) (Option.some_ne_none d).symm⟩
    · exact hold p (h.place p hp).live a hap
  · exact hold y hlive a (hsub a ha)

end Hanging

section Moving

variable {x : κ} {n : Node κ} {p : Option κ}

/-- The node lives, and so does its new place, which is not inside it. -/
structure Moves (t : Tree κ) (x : κ) (n : Node κ) (p : Option κ) : Prop where
  here : t x = some n
  live : n.removedAt = none
  place : ∀ q, p = some q → t.LiveFolder q
  outside : ∀ q, p = some q → ¬ Above t.parent x q

def moved (t : Tree κ) (x : κ) (n : Node κ) (p : Option κ) : Tree κ :=
  t.set x { n with parent := p }

/-- The node keeps everything buried in it that still holds something alive inside the
purges that it was in. -/
def Keeps (purges : κ → ℕ → Prop) (t : Tree κ) (x : κ) (p : Option κ) : Prop :=
  ∀ a y n d, t a = some n → n.removedAt = some d → Above t.parent x a → t.Live y →
  Above t.parent a y →
    ∀ z s, purges z s → Above t.parent z x → z ≠ x → ∃ q, p = some q ∧ Above t.parent z q

theorem parent_moved : (t.moved x n p).parent = Function.update t.parent x p := parent_set ..

theorem moved_node (h : t x = some n) (y : κ) :
    t.moved x n p y = (t y).map fun m => if y = x then { m with parent := p } else m := by
  by_cases hy : y = x
  · subst hy
    rw [moved, set_self, h]
    simp
  · rw [moved, set_of_ne hy]
    simp [hy]

/-- Nobody is born or buried by a move. -/
theorem moved_live (h : t x = some n) {y : κ} : (t.moved x n p).Live y ↔ t.Live y := by
  unfold Live
  rw [moved_node h]
  cases t y with
  | none => simp
  | some m => by_cases hy : y = x <;> simp [hy]

theorem Moves.grown (h : Moves t x n p) (hg : Grown lost t) : Grown lost (t.moved x n p) where
  acyclic := by
    rw [parent_moved]
    exact hg.acyclic.update h.outside
  parents := fun y q hy => by
    have hfolder : (∃ m, t q = some m ∧ m.folder = true) ∨ (t q = none ∧ lost q) := by
      rw [parent_moved] at hy
      by_cases hyx : y = x
      · subst hyx
        rw [Function.update_self] at hy
        obtain ⟨m, hm, _, hfolder⟩ := h.place q hy
        exact Or.inl ⟨m, hm, hfolder⟩
      · rw [Function.update_of_ne hyx] at hy
        exact hg.parents y q hy
    rw [moved_node h.here]
    refine hfolder.imp (fun ⟨m, hm, hfolder⟩ => ?_) fun ⟨hnone, hlost⟩ =>
      ⟨by rw [hnone]; rfl, hlost⟩
    rw [hm]
    refine ⟨_, rfl, ?_⟩
    split_ifs
    · exact hfolder
    · exact hfolder

/-- What is above a node after the move. -/
theorem Moves.above_cases (h : Moves t x n p) {a y : κ} (ha : Above (t.moved x n p).parent a y) :
    Above t.parent a y ∨ ∃ q, p = some q ∧ Above t.parent x y ∧ Above t.parent a q := by
  rw [parent_moved] at ha
  refine (above_update_cases ha).imp_right fun ⟨hxy, q, hq, haq⟩ => ⟨q, hq, hxy, ?_⟩
  exact above_update haq (h.outside q hq)

theorem Moves.empty (h : Moves t x n p) {root : κ} (he : t.Empty root) :
    (t.moved x n p).Empty root := by
  intro y hy habove
  rw [moved_live h.here] at hy
  rcases h.above_cases habove with hold | ⟨q, hq, _, hnew⟩
  · exact he y hy hold
  · exact he q (h.place q hq).live hnew

theorem Moves.covered (h : Moves t x n p) (hg : Grown lost t) (hc : Covered purges t)
    (hkeeps : Keeps purges t x p) : Covered purges (t.moved x n p) := by
  have hsame : ∀ {z a}, Above t.parent z a → ¬ Above t.parent x a →
      Above (t.moved x n p).parent z a := by
    intro z a hza hnot
    rw [parent_moved]
    exact above_update_of_not hza hnot
  have hnode : ∀ {y a}, t.Live y → Above t.parent a y →
      (∀ z s d m, t a = some m → m.removedAt = some d → purges z s → Above t.parent z a →
        Above (t.moved x n p).parent z a) →
      ∃ m, t.moved x n p a = some m ∧ ∀ d, m.removedAt = some d → ∃ z s, purges z s ∧ s ≤ d ∧
        Above (t.moved x n p).parent z a := by
    intro y a hy ha hkeep
    obtain ⟨m, hm, hcover⟩ := hc y hy a ha
    rw [moved_node h.here, hm]
    refine ⟨_, rfl, fun d hd => ?_⟩
    have hd' : m.removedAt = some d := by
      split_ifs at hd
      · exact hd
      · exact hd
    obtain ⟨z, s, hz, hs, hza⟩ := hcover d hd'
    exact ⟨z, s, hz, hs, hkeep z s d m hm hd' hz hza⟩
  intro y hy a ha
  rw [moved_live h.here] at hy
  rcases h.above_cases ha with hold | ⟨q, hq, _, hnew⟩
  · refine hnode hy hold fun z s d m hm hd hz hza => ?_
    by_cases hxa : Above t.parent x a
    · by_cases hxz : Above t.parent x z
      · rw [parent_moved]
        exact hg.acyclic.above_below hza hxz
      · have hzx : Above t.parent z x := (above_total hza hxa).resolve_right hxz
        obtain ⟨q, hq, hzq⟩ :=
          hkeeps a y m d hm hd hxa hy hold z s hz hzx fun he => hxz (he ▸ above_refl _)
        have hxq : (t.moved x n p).parent x = some q := by
          rw [parent_moved, Function.update_self, hq]
        have hxa' : Above (t.moved x n p).parent x a := by
          rw [parent_moved]
          exact hg.acyclic.above_below hxa (above_refl _)
        exact ((hsame hzq (h.outside q hq)).trans (above_of_parent hxq)).trans hxa'
    · exact hsame hza hxa
  · refine hnode (h.place q hq).live hnew fun z s d m _ _ _ hza => hsame hza fun hxa => ?_
    exact h.outside q hq (hxa.trans hnew)

end Moving

section Burying

variable {x : κ} {n : Node κ} {d : ℕ}

def buried (t : Tree κ) (x : κ) (n : Node κ) (d : ℕ) : Tree κ :=
  t.set x { n with removedAt := some d }

theorem parent_buried (h : t x = some n) : (t.buried x n d).parent = t.parent := by
  rw [buried, parent_set]
  funext y
  by_cases hy : y = x
  · subst hy
    simp [parent, h]
  · simp [hy]

/-- Who lives afterwards lived before, and is somebody else. -/
theorem live_of_buried {y : κ} (h : (t.buried x n d).Live y) : t.Live y ∧ y ≠ x := by
  obtain ⟨m, hm, hlive⟩ := h
  by_cases hy : y = x
  · subst hy
    rw [buried, set_self] at hm
    obtain rfl := Option.some.inj hm
    exact absurd hlive (Option.some_ne_none d)
  · rw [buried, set_of_ne hy] at hm
    exact ⟨⟨m, hm, hlive⟩, hy⟩

theorem Grown.buried (hg : Grown lost t) (h : t x = some n) : Grown lost (t.buried x n d) where
  acyclic := by
    rw [parent_buried h]
    exact hg.acyclic
  parents := fun y p hy => by
    rw [parent_buried h] at hy
    by_cases hp : p = x
    · subst hp
      rcases hg.parents y p hy with ⟨m, hm, hfolder⟩ | ⟨hnone, _⟩
      · obtain rfl := Option.some.inj (h.symm.trans hm)
        exact Or.inl ⟨_, set_self p _, hfolder⟩
      · exact absurd (hnone.symm.trans h) (Option.some_ne_none n).symm
    · rw [Tree.buried, set_of_ne hp]
      exact hg.parents y p hy

theorem Empty.buried {root : κ} (he : t.Empty root) (h : t x = some n) :
    (t.buried x n d).Empty root := by
  intro y hy habove
  rw [parent_buried h] at habove
  exact he y (live_of_buried hy).1 habove

/-- A purge buries what is below its root. -/
theorem Covered.buried (hc : Covered purges t) (h : t x = some n) {root : κ} {s : ℕ}
    (hpurge : purges root s)
    (hs : s ≤ d) (hroot : Above t.parent root x) : Covered purges (t.buried x n d) := by
  intro y hy a ha
  rw [parent_buried h] at ha ⊢
  by_cases hax : a = x
  · subst hax
    refine ⟨_, set_self a _, fun d' hd => ?_⟩
    obtain rfl := Option.some.inj hd
    exact ⟨root, s, hpurge, hs, hroot⟩
  · obtain ⟨m, hm, hcover⟩ := hc y (live_of_buried hy).1 a ha
    exact ⟨m, (set_of_ne hax _).trans hm, hcover⟩

/-- What a purge of `root` buries, one after the other. -/
inductive Buries (root : κ) (d : ℕ) (t : Tree κ) : Tree κ → Prop
  | start : Buries root d t t
  | bury {u : Tree κ} {x : κ} {n : Node κ} : Buries root d t u → u x = some n → n.removedAt = none →
      Above u.parent root x → Buries root d t (u.buried x n d)

theorem Buries.grown {root : κ} {u : Tree κ} (h : Buries root d t u) (hg : Grown lost t) :
    Grown lost u := by
  induction h with
  | start => exact hg
  | bury _ hx _ _ ih => exact ih.buried hx

theorem Buries.empty {root r : κ} {u : Tree κ} (h : Buries root d t u) (he : t.Empty r) :
    u.Empty r := by
  induction h with
  | start => exact he
  | bury _ hx _ _ ih => exact ih.buried hx

theorem Buries.covered {root : κ} {s : ℕ} {u : Tree κ} (h : Buries root d t u)
    (hc : Covered purges t) (hpurge : purges root s) (hs : s ≤ d) : Covered purges u := by
  induction h with
  | start => exact hc
  | bury _ hx _ hroot ih => exact ih.buried hx hpurge hs hroot

/-- A node stays in its place, and is buried at the most. -/
theorem Buries.node {root : κ} {u : Tree κ} (h : Buries root d t u) {y : κ} {m : Node κ}
    (hy : t y = some m) :
    ∃ m', u y = some m' ∧ m'.parent = m.parent ∧ m'.folder = m.folder ∧
      (m'.removedAt = m.removedAt ∨ m'.removedAt = some d) := by
  induction h with
  | start => exact ⟨m, hy, rfl, rfl, Or.inl rfl⟩
  | @bury u x n _ hx _ _ ih =>
    obtain ⟨m', hm', hparent, hfolder, hremoved⟩ := ih
    by_cases hyx : y = x
    · subst hyx
      obtain rfl := Option.some.inj (hx.symm.trans hm')
      exact ⟨_, set_self y _, hparent, hfolder, Or.inr rfl⟩
    · exact ⟨m', (set_of_ne hyx _).trans hm', hparent, hfolder, hremoved⟩

end Burying

end Tree
end SendSelf

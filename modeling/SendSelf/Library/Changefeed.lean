import SendSelf.Library.Table

/-!
# Numbered changes and the copies that follow them

Every change of a table takes the next number and stamps its row with it; a row that
is removed stays as a tombstone, and forgetting a tombstone raises a floor over its
number. Whoever holds what the table was at a number, and is shown the rows that are
numbered higher, ends up with what the table is. What is shown may be split at any
number, with changes in between.
-/
namespace SendSelf

structure Changefeed {κ ρ : Type*} (key : ρ → κ) where
  rows : Table key
  /-- The newest number. -/
  top : ℕ
  /-- No forgotten tombstone has a higher number. -/
  floor : ℕ

namespace Changefeed

variable {κ ρ : Type*} {key : ρ → κ} (seq : ρ → ℕ) (gone : ρ → Bool)

structure Numbered (f : Changefeed key) : Prop where
  distinct : ∀ r ∈ f.rows, ∀ s ∈ f.rows, seq r = seq s → r = s
  pos : ∀ r ∈ f.rows, 0 < seq r
  le_top : ∀ r ∈ f.rows, seq r ≤ f.top
  floor_le : f.floor ≤ f.top

/-- Changes were made, and no tombstone was forgotten. -/
structure Stamped (f g : Changefeed key) : Prop where
  top : f.top ≤ g.top
  floor : g.floor = f.floor
  rows : ∀ r ∈ g.rows, r ∈ f.rows ∨ f.top < seq r
  kept : ∀ r ∈ f.rows, ∃ s ∈ g.rows, key s = key r

/-- Tombstones were forgotten. -/
structure Forgotten (f g : Changefeed key) : Prop where
  top : g.top = f.top
  floor : f.floor ≤ g.floor
  floor_le : g.floor ≤ max f.floor f.top
  rows : ∀ r ∈ g.rows, r ∈ f.rows
  lost : ∀ r ∈ f.rows, r ∈ g.rows ∨ (gone r = true ∧ seq r ≤ g.floor)

/-- What one step may do. -/
structure Later (f g : Changefeed key) : Prop where
  top : f.top ≤ g.top
  floor : f.floor ≤ g.floor
  rows : ∀ r ∈ g.rows, r ∈ f.rows ∨ f.top < seq r
  lost : ∀ r ∈ f.rows, (∃ s ∈ g.rows, key s = key r) ∨ (gone r = true ∧ seq r ≤ g.floor)

variable {seq gone}

theorem Stamped.refl (f : Changefeed key) : Stamped seq f f :=
  ⟨le_rfl, rfl, fun _ hr => Or.inl hr, fun r hr => ⟨r, hr, rfl⟩⟩

theorem Stamped.trans {f g h : Changefeed key} (hfg : Stamped seq f g) (hgh : Stamped seq g h) :
    Stamped seq f h where
  top := hfg.top.trans hgh.top
  floor := hgh.floor.trans hfg.floor
  rows := fun r hr => by
    rcases hgh.rows r hr with hg | hnew
    · exact hfg.rows r hg
    · exact Or.inr (lt_of_le_of_lt hfg.top hnew)
  kept := fun r hr => by
    obtain ⟨s, hs, hk⟩ := hfg.kept r hr
    obtain ⟨t, ht, hk'⟩ := hgh.kept s hs
    exact ⟨t, ht, hk'.trans hk⟩

theorem Stamped.later {f g : Changefeed key} (h : Stamped seq f g) : Later seq gone f g :=
  ⟨h.top, h.floor.ge, h.rows, fun r hr => Or.inl (h.kept r hr)⟩

theorem Forgotten.later {f g : Changefeed key} (h : Forgotten seq gone f g) :
    Later seq gone f g where
  top := h.top.ge
  floor := h.floor
  rows := fun r hr => Or.inl (h.rows r hr)
  lost := fun r hr => (h.lost r hr).imp_left fun hg => ⟨r, hg, rfl⟩

theorem Forgotten.numbered {f g : Changefeed key} (h : Forgotten seq gone f g)
    (hf : f.Numbered seq) :
    g.Numbered seq where
  distinct := fun r hr s hs => hf.distinct r (h.rows r hr) s (h.rows s hs)
  pos := fun r hr => hf.pos r (h.rows r hr)
  le_top := fun r hr => h.top ▸ hf.le_top r (h.rows r hr)
  floor_le := by
    have hle := h.floor_le
    have hfl := hf.floor_le
    rw [h.top]
    omega

/-- Up to the number `k`, `copy` is what the table is. -/
def Mirrors (seq : ρ → ℕ) (gone : ρ → Bool) (f : Changefeed key) (k : ℕ)
    (copy : κ → Option ρ) : Prop :=
  k ≤ f.top ∧ ∀ r ∈ f.rows, seq r ≤ k → copy (key r) = if gone r then none else some r

/-- A copy that is brought up to date: what it holds of a row that is no more was
forgotten since, and the floor tells. -/
structure Following (seq : ρ → ℕ) (gone : ρ → Bool) (f : Changefeed key) (k : ℕ)
    (copy : κ → Option ρ) :
    Prop where
  mirrors : f.Mirrors seq gone k copy
  absent : ∀ x, (∀ r ∈ f.rows, key r ≠ x) → copy x = none ∨ k < f.floor

/-- A copy that is built from nothing since the newest number was `T`. -/
structure Rebuilding (seq : ρ → ℕ) (gone : ρ → Bool) (T : ℕ) (f : Changefeed key) (k : ℕ)
    (copy : κ → Option ρ) : Prop where
  mirrors : f.Mirrors seq gone k copy
  since : T ≤ f.top
  present : ∀ x c, copy x = some c → ∃ r ∈ f.rows, key r = x ∧ (gone r = true → T < seq r)

/-- The copy is the table. -/
def Exact (gone : ρ → Bool) (f : Changefeed key) (copy : κ → Option ρ) : Prop :=
  ∀ x c, copy x = some c ↔ c ∈ f.rows ∧ key c = x ∧ gone c = false

theorem Mirrors.later {f g : Changefeed key} {k : ℕ} {copy : κ → Option ρ}
    (h : f.Mirrors seq gone k copy) (hfg : Later seq gone f g) :
    g.Mirrors seq gone k copy := by
  refine ⟨h.1.trans hfg.top, fun r hr hk => ?_⟩
  rcases hfg.rows r hr with hf | hnew
  · exact h.2 r hf hk
  · exact absurd (h.1.trans_lt hnew) (not_lt.mpr hk)

theorem Following.later {f g : Changefeed key} {k : ℕ} {copy : κ → Option ρ}
    (h : Following seq gone f k copy) (hfg : Later seq gone f g) : Following seq gone g k copy where
  mirrors := h.mirrors.later hfg
  absent := fun x hx => by
    by_cases hex : ∃ r ∈ f.rows, key r = x
    · obtain ⟨r, hr, rfl⟩ := hex
      obtain ⟨hgone, hfloor⟩ := (hfg.lost r hr).resolve_left fun ⟨s, hs, hk⟩ => hx s hs hk
      by_cases hk : seq r ≤ k
      · exact Or.inl (by rw [h.mirrors.2 r hr hk, if_pos hgone])
      · exact Or.inr (lt_of_lt_of_le (not_le.mp hk) hfloor)
    · push Not at hex
      exact (h.absent x hex).imp_right fun hlt => hlt.trans_le hfg.floor

/-- Nothing that was removed since the copy was begun may be forgotten meanwhile. -/
theorem Rebuilding.later {T : ℕ} {f g : Changefeed key} {k : ℕ} {copy : κ → Option ρ}
    (h : Rebuilding seq gone T f k copy) (hfg : Later seq gone f g)
    (hkept : ∀ r ∈ f.rows, T < seq r → ∃ s ∈ g.rows, key s = key r) :
    Rebuilding seq gone T g k copy where
  mirrors := h.mirrors.later hfg
  since := h.since.trans hfg.top
  present := fun x c hc => by
    obtain ⟨r, hr, rfl, hrecent⟩ := h.present x c hc
    have hex : ∃ s ∈ g.rows, key s = key r :=
      (hfg.lost r hr).elim id fun hlost => hkept r hr (hrecent hlost.1)
    obtain ⟨s, hs, hk⟩ := hex
    refine ⟨s, hs, hk, fun hgone => ?_⟩
    rcases hfg.rows s hs with hf | hnew
    · rw [Table.eq_of_key hf hr hk] at hgone ⊢
      exact hrecent hgone
    · exact lt_of_le_of_lt h.since hnew

/-- The rows numbered between `k` and `k'`. -/
structure Page (seq : ρ → ℕ) (f : Changefeed key) (k k' : ℕ) (page : List ρ) : Prop where
  le : k ≤ k'
  le_top : k' ≤ f.top
  mem : ∀ r, r ∈ page ↔ r ∈ f.rows ∧ k < seq r ∧ seq r ≤ k'

/-- The numbers up to that of the last row shown. -/
theorem Page.of_split {f : Changefeed key} (hf : f.Numbered seq) {k : ℕ} {l p q : List ρ}
    (hl : ∀ r, r ∈ l ↔ r ∈ f.rows ∧ k < seq r) (hsorted : l.Pairwise fun r s => seq r ≤ seq s)
    (hsplit : l = p ++ q) {a : ρ} (ha : p.getLast? = some a) : f.Page seq k (seq a) p := by
  subst hsplit
  obtain ⟨p, rfl⟩ := List.getLast?_eq_some_iff.mp ha
  have hmem := (hl a).mp (by simp)
  refine ⟨hmem.2.le, hf.le_top a hmem.1, fun r => ⟨fun hr => ?_, fun ⟨hr, hk, hle⟩ => ?_⟩⟩
  · obtain ⟨hrows, hk⟩ := (hl r).mp (List.mem_append_left q hr)
    refine ⟨hrows, hk, ?_⟩
    have hp := (List.pairwise_append.mp hsorted).1
    rcases List.mem_append.mp hr with hr | hr
    · exact (List.pairwise_append.mp hp).2.2 r hr a (List.mem_singleton_self a)
    · rw [List.mem_singleton.mp hr]
  · rcases List.mem_append.mp ((hl r).mpr ⟨hr, hk⟩) with hr' | hr'
    · exact hr'
    · have hge := (List.pairwise_append.mp hsorted).2.2 a (by simp) r hr'
      obtain rfl := hf.distinct r hr a hmem.1 (le_antisymm hle hge)
      simp

/-- All that is left to show. -/
theorem Page.of_all {f : Changefeed key} (hf : f.Numbered seq) {k : ℕ} (hk : k ≤ f.top) {l : List ρ}
    (hl : ∀ r, r ∈ l ↔ r ∈ f.rows ∧ k < seq r) : f.Page seq k f.top l :=
  ⟨hk, le_rfl, fun r => (hl r).trans ⟨fun h => ⟨h.1, h.2, hf.le_top r h.1⟩, fun h => ⟨h.1, h.2.1⟩⟩⟩

/-- What a copy becomes that takes over the rows it is shown. -/
structure Overlaid (key : ρ → κ) (gone : ρ → Bool) (page : List ρ)
    (copy copy' : κ → Option ρ) : Prop where
  shown : ∀ r ∈ page, copy' (key r) = if gone r then none else some r
  rest : ∀ x, (∀ r ∈ page, key r ≠ x) → copy' x = copy x

theorem Mirrors.page {f : Changefeed key} {k k' : ℕ} {page : List ρ} {copy copy' : κ → Option ρ}
    (h : f.Mirrors seq gone k copy) (hp : f.Page seq k k' page)
    (ho : Overlaid key gone page copy copy') : f.Mirrors seq gone k' copy' := by
  refine ⟨hp.le_top, fun r hr hk => ?_⟩
  by_cases hold : seq r ≤ k
  · rw [ho.rest (key r), h.2 r hr hold]
    intro s hs he
    have hmem := (hp.mem s).mp hs
    obtain rfl := Table.eq_of_key hmem.1 hr he
    exact absurd hold (not_le.mpr hmem.2.1)
  · exact ho.shown r ((hp.mem r).mpr ⟨hr, not_le.mp hold, hk⟩)

theorem Following.page {f : Changefeed key} {k k' : ℕ} {page : List ρ} {copy copy' : κ → Option ρ}
    (h : Following seq gone f k copy) (hfloor : f.floor ≤ k) (hp : f.Page seq k k' page)
    (ho : Overlaid key gone page copy copy') : Following seq gone f k' copy' where
  mirrors := h.mirrors.page hp ho
  absent := fun x hx => by
    rw [ho.rest x fun r hr => hx r ((hp.mem r).mp hr).1]
    exact Or.inl ((h.absent x hx).resolve_right (not_lt.mpr hfloor))

theorem Rebuilding.page {T : ℕ} {f : Changefeed key} {k k' : ℕ} {page : List ρ}
    {copy copy' : κ → Option ρ} (h : Rebuilding seq gone T f k copy) (hp : f.Page seq k k' page)
    (ho : Overlaid key gone page copy copy') : Rebuilding seq gone T f k' copy' where
  mirrors := h.mirrors.page hp ho
  since := h.since
  present := fun x c hc => by
    by_cases hex : ∃ r ∈ page, key r = x
    · obtain ⟨r, hr, rfl⟩ := hex
      refine ⟨r, ((hp.mem r).mp hr).1, rfl, fun hgone => ?_⟩
      rw [ho.shown r hr, if_pos hgone] at hc
      exact absurd hc (Option.some_ne_none c).symm
    · push Not at hex
      exact h.present x c (by rwa [← ho.rest x hex])

/-- Nothing is where a copy is begun. -/
theorem Rebuilding.nothing {T : ℕ} {f : Changefeed key} (hf : f.Numbered seq) (hT : T ≤ f.top) :
    Rebuilding seq gone T f 0 fun _ => none where
  mirrors := ⟨Nat.zero_le _, fun r hr hk => absurd (hf.pos r hr) (not_lt.mpr hk)⟩
  since := hT
  present := fun _ c hc => absurd hc (Option.some_ne_none c).symm

theorem Exact.following {f : Changefeed key} {copy : κ → Option ρ} (h : f.Exact gone copy) :
    Following seq gone f f.top copy where
  mirrors := ⟨le_rfl, fun r hr _ => by
    cases hgone : gone r with
    | false => exact (h (key r) r).mpr ⟨hr, rfl, hgone⟩
    | true =>
      rw [if_pos rfl, Option.eq_none_iff_forall_not_mem]
      intro c hc
      have hmem := (h (key r) c).mp hc
      rw [Table.eq_of_key hmem.1 hr hmem.2.1, hgone] at hmem
      exact absurd hmem.2.2 Bool.noConfusion⟩
  absent := fun x hx => by
    refine Or.inl (Option.eq_none_iff_forall_not_mem.mpr fun c hc => ?_)
    have hmem := (h x c).mp hc
    exact hx c hmem.1 hmem.2.1

theorem Mirrors.exact {f : Changefeed key} {copy : κ → Option ρ} (hf : f.Numbered seq)
    (h : f.Mirrors seq gone f.top copy) (habsent : ∀ x, (∀ r ∈ f.rows, key r ≠ x) → copy x = none) :
    f.Exact gone copy := by
  intro x c
  constructor
  · intro hc
    by_cases hex : ∃ r ∈ f.rows, key r = x
    · obtain ⟨r, hr, rfl⟩ := hex
      rw [h.2 r hr (hf.le_top r hr)] at hc
      split_ifs at hc with hgone
      obtain rfl := Option.some.inj hc
      exact ⟨hr, rfl, Bool.eq_false_iff.mpr hgone⟩
    · push Not at hex
      exact absurd hc (by simp [habsent x hex])
  · intro ⟨hr, hx, hgone⟩
    rw [← hx, h.2 c hr (hf.le_top c hr), hgone]
    rfl

theorem Following.exact {f : Changefeed key} {copy : κ → Option ρ} (hf : f.Numbered seq)
    (h : Following seq gone f f.top copy) : f.Exact gone copy :=
  h.mirrors.exact hf fun x hx => (h.absent x hx).resolve_right (not_lt.mpr hf.floor_le)

theorem Rebuilding.exact {T : ℕ} {f : Changefeed key} {copy : κ → Option ρ} (hf : f.Numbered seq)
    (h : Rebuilding seq gone T f f.top copy) : f.Exact gone copy :=
  h.mirrors.exact hf fun x hx => Option.eq_none_iff_forall_not_mem.mpr fun c hc => by
    obtain ⟨r, hr, hk, _⟩ := h.present x c hc
    exact hx r hr hk

end Changefeed
end SendSelf

import Mathlib.Order.Nat

/-!
# Replicas that are told twice

The rows of a table are numbered, each version higher than the one before, and the last
version of a row that was removed is a tombstone. A replica is current to a number, and
may hold later versions of some rows. It is told of rows in two ways: by listings, which
move the number, and by single versions, which do not. Told a version of a row whose
removal it is already current to, it would hold that row for good.
-/
namespace SendSelf.Replica

variable {κ ρ : Type*} (seq : ρ → ℕ) (gone : ρ → Bool)

/-- What is to be seen of a row. -/
def shown (r : ρ) : Option ρ := if gone r then none else some r

/-- A version of a row, the last one or an earlier one. -/
def Version (last : κ → Option ρ) (x : κ) (c : ρ) : Prop :=
  ∃ r, last x = some r ∧ seq c ≤ seq r ∧ (seq c = seq r → c = r)

/-- Every row that was not changed since `k` is as it is in the table. -/
structure Holds (last : κ → Option ρ) (k : ℕ) (copy : κ → Option ρ) : Prop where
  held : ∀ x r, last x = some r → seq r ≤ k → copy x = shown gone r
  version : ∀ x c, copy x = some c → Version seq last x c

/-- A version that a replica current to `k` may be told: its row was not removed until then. -/
structure Takes (last : κ → Option ρ) (k : ℕ) (x : κ) (c : ρ) : Prop where
  version : Version seq last x c
  there : ∀ r, last x = some r → seq r ≤ k → gone r = false

/-- The table after changes that are numbered higher than `top`. -/
structure Grows (last last' : κ → Option ρ) (top : ℕ) : Prop where
  changed : ∀ x r, last' x = some r → last x = some r ∨ top < seq r
  kept : ∀ x r, last x = some r → ∃ r', last' x = some r' ∧ (r' = r ∨ seq r < seq r')

variable {seq gone} {last last' : κ → Option ρ} {k k' top : ℕ} {copy copy' : κ → Option ρ}
    {x : κ} {c : ρ}

theorem Version.of_last {r : ρ} (h : last x = some r) : Version seq last x r :=
  ⟨r, h, le_rfl, fun _ => rfl⟩

theorem Version.grows (h : Version seq last x c) (hgrows : Grows seq last last' top) :
    Version seq last' x c := by
  obtain ⟨r, hr, hle, heq⟩ := h
  obtain ⟨r', hr', hsame | hlt⟩ := hgrows.kept x r hr
  · exact ⟨r', hr', hsame ▸ hle, hsame ▸ heq⟩
  · exact ⟨r', hr', hle.trans hlt.le, fun he => absurd he (hle.trans_lt hlt).ne⟩

theorem Holds.grows (h : Holds seq gone last k copy) (hgrows : Grows seq last last' top)
    (hk : k ≤ top) :
    Holds seq gone last' k copy where
  held := fun x r hr hle => by
    rcases hgrows.changed x r hr with hold | hnew
    · exact h.held x r hold hle
    · exact absurd (hk.trans_lt hnew) (not_lt.mpr hle)
  version := fun x c hc => (h.version x c hc).grows hgrows

theorem Takes.grows (h : Takes seq gone last k x c) (hgrows : Grows seq last last' top)
    (hk : k ≤ top) :
    Takes seq gone last' k x c where
  version := h.version.grows hgrows
  there := fun r hr hle => by
    rcases hgrows.changed x r hr with hold | hnew
    · exact h.there r hold hle
    · exact absurd (hk.trans_lt hnew) (not_lt.mpr hle)

/-- A replica that is current to all changes is the table. -/
theorem Holds.exact (h : Holds seq gone last k copy)
    (hall : ∀ x r, last x = some r → seq r ≤ k) (x : κ) :
    copy x = (last x).bind (shown gone) := by
  cases hr : last x with
  | some r => exact h.held x r hr (hall x r hr)
  | none =>
    refine Option.eq_none_iff_forall_not_mem.mpr fun c hc => ?_
    obtain ⟨r, hr', _⟩ := h.version x c hc
    exact absurd (hr.symm.trans hr') (Option.some_ne_none r).symm

/-- Some rows are replaced by newer versions. -/
theorem Holds.learn (h : Holds seq gone last k copy)
    (hcopy : ∀ x, copy' x = copy x ∨ ∃ c, copy' x = some c ∧ Takes seq gone last k x c ∧
      ∀ known, copy x = some known → seq known < seq c) : Holds seq gone last k copy' where
  held := fun x r hr hle => by
    have hold := h.held x r hr hle
    rcases hcopy x with hsame | ⟨c, _, htakes, hnewer⟩
    · rw [hsame, hold]
    · rw [shown, htakes.there r hr hle] at hold
      obtain ⟨r', hr', hcr, _⟩ := htakes.version
      obtain rfl := Option.some.inj (hr.symm.trans hr')
      exact absurd (hnewer r hold) (not_lt.mpr hcr)
  version := fun x c hc => by
    rcases hcopy x with hsame | ⟨c', hc', htakes, _⟩
    · exact h.version x c (hsame ▸ hc)
    · obtain rfl := Option.some.inj (hc'.symm.trans hc)
      exact htakes.version

/-- Some rows are dropped. -/
theorem Holds.drop (h : Holds seq gone last k copy) {ids : κ → Prop}
    (hcopy : ∀ x, (¬ ids x ∧ copy' x = copy x) ∨ (ids x ∧ copy' x = none))
    (hgone : ∀ x, ids x → ∀ r, last x = some r → seq r ≤ k → gone r = true) :
    Holds seq gone last k copy' where
  held := fun x r hr hle => by
    rcases hcopy x with ⟨_, hsame⟩ | ⟨hx, hnone⟩
    · rw [hsame]
      exact h.held x r hr hle
    · rw [hnone, shown, if_pos (hgone x hx r hr hle)]
  version := fun x c hc => by
    rcases hcopy x with ⟨_, hsame⟩ | ⟨_, hnone⟩
    · exact h.version x c (hsame ▸ hc)
    · exact absurd (hnone.symm.trans hc) (Option.some_ne_none c).symm

/-- What an answer says that lists the changes from `since` to `k`: of some rows nothing. -/
structure Brings (seq : ρ → ℕ) (gone : ρ → Bool) (last : κ → Option ρ) (since k : ℕ)
    (told : κ → Option (Option ρ)) :
    Prop where
  said : ∀ x r v, last x = some r → seq r ≤ k → told x = some v → v = shown gone r
  unsaid : ∀ x r, last x = some r → seq r ≤ k → told x = none → seq r ≤ since
  version : ∀ x c, told x = some (some c) → Version seq last x c

theorem Brings.grows {since : ℕ} {told : κ → Option (Option ρ)}
    (h : Brings seq gone last since k told)
    (hgrows : Grows seq last last' top) (hk : k ≤ top) : Brings seq gone last' since k told where
  said := fun x r v hr hle htold => by
    rcases hgrows.changed x r hr with hold | hnew
    · exact h.said x r v hold hle htold
    · exact absurd (hk.trans_lt hnew) (not_lt.mpr hle)
  unsaid := fun x r hr hle htold => by
    rcases hgrows.changed x r hr with hold | hnew
    · exact h.unsaid x r hold hle htold
    · exact absurd (hk.trans_lt hnew) (not_lt.mpr hle)
  version := fun x c hc => (h.version x c hc).grows hgrows

/-- A replica that takes over what it is told, unless it holds a version that is not older. -/
def Applied (seq : ρ → ℕ) (told : κ → Option (Option ρ)) (copy copy' : κ → Option ρ) : Prop :=
  ∀ x, match told x with
    | none => copy' x = copy x
    | some none => copy' x = none
    | some (some c) => copy' x = some c ∨
        (copy' x = copy x ∧ ∃ known, copy x = some known ∧ seq c ≤ seq known)

theorem Holds.bring {since : ℕ} {told : κ → Option (Option ρ)} (h : Holds seq gone last since copy)
    (hbrings : Brings seq gone last since k told) (happlied : Applied seq told copy copy') :
    Holds seq gone last k copy' where
  held := fun x r hr hle => by
    have hx := happlied x
    cases htold : told x with
    | none =>
      rw [htold] at hx
      rw [hx]
      exact h.held x r hr (hbrings.unsaid x r hr hle htold)
    | some v =>
      have hv := hbrings.said x r v hr hle htold
      cases v with
      | none =>
        rw [htold] at hx
        exact hx.trans hv
      | some c =>
        rw [htold] at hx
        rcases hx with hnew | ⟨hsame, known, hknown, hnewer⟩
        · exact hnew.trans hv
        · have hcr : c = r := by
            unfold shown at hv
            split_ifs at hv
            exact Option.some.inj hv
          subst hcr
          obtain ⟨r', hr', hle', heq⟩ := h.version x known hknown
          obtain rfl := Option.some.inj (hr.symm.trans hr')
          rw [hsame, hknown, heq (le_antisymm hle' hnewer)]
          exact hv
  version := fun x c hc => by
    have hx := happlied x
    cases htold : told x with
    | none =>
      rw [htold] at hx
      exact h.version x c (hx ▸ hc)
    | some v =>
      cases v with
      | none =>
        rw [htold] at hx
        exact absurd (hx.symm.trans hc) (Option.some_ne_none c).symm
      | some c' =>
        rw [htold] at hx
        rcases hx with hnew | ⟨hsame, _⟩
        · obtain rfl := Option.some.inj (hnew.symm.trans hc)
          exact hbrings.version x c' htold
        · exact h.version x c (hsame ▸ hc)

end SendSelf.Replica

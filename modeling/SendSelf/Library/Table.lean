import Mathlib.Data.List.Nodup
import Mathlib.Data.List.Sort

/-!
# Tables with a primary key

A table is a list of rows together with the fact that no two rows share their
primary key. The operations are those of the SQL statements a server runs: a
guarded update of all rows that match, a deletion of all rows that match, and an
insertion which fails when the key is taken. None of them can build a table that
breaks the constraint.
-/
namespace SendSelf

@[ext] structure Table {κ ρ : Type*} (key : ρ → κ) where
  rows : List ρ
  nodup : (rows.map key).Nodup

namespace Table

variable {κ ρ : Type*} {key : ρ → κ}

instance : Membership ρ (Table key) := ⟨fun t r => r ∈ t.rows⟩

theorem mem_def {t : Table key} {r : ρ} : r ∈ t ↔ r ∈ t.rows := Iff.rfl

instance [DecidableEq ρ] : DecidableEq (Table key) := fun t u =>
  decidable_of_iff (t.rows = u.rows) Table.ext_iff.symm

instance {t : Table key} {p : ρ → Prop} [DecidablePred p] : Decidable (∃ r ∈ t, p r) :=
  decidable_of_iff (∃ r ∈ t.rows, p r) Iff.rfl

instance {t : Table key} {p : ρ → Prop} [DecidablePred p] : Decidable (∀ r ∈ t, p r) :=
  decidable_of_iff (∀ r ∈ t.rows, p r) Iff.rfl

/-- Two rows with the same key are the same row. -/
theorem eq_of_key {t : Table key} {r s : ρ} (hr : r ∈ t) (hs : s ∈ t) (h : key r = key s) : r = s :=
  List.inj_on_of_nodup_map t.nodup hr hs h

def empty : Table key := ⟨[], List.nodup_nil⟩

@[simp] theorem not_mem_empty {r : ρ} : ¬ r ∈ (empty : Table key) := List.not_mem_nil

def singleton (r : ρ) : Table key := ⟨[r], by simp⟩

@[simp] theorem mem_singleton {r s : ρ} : r ∈ (singleton s : Table key) ↔ r = s :=
  List.mem_singleton

/-- Some row satisfies `p`: `EXISTS (SELECT 1 FROM t WHERE p)`. -/
def exist (t : Table key) (p : ρ → Bool) : Bool := t.rows.any p

@[simp] theorem exist_iff {t : Table key} {p : ρ → Bool} : t.exist p = true ↔ ∃ r ∈ t, p r = true :=
  List.any_eq_true

/-- Every row satisfies `p`. -/
def every (t : Table key) (p : ρ → Bool) : Bool := t.rows.all p

@[simp] theorem every_iff {t : Table key} {p : ρ → Bool} : t.every p = true ↔ ∀ r ∈ t, p r = true :=
  List.all_eq_true

/-- The first row that satisfies `p`. -/
def first (t : Table key) (p : ρ → Bool) : Option ρ := t.rows.find? p

theorem first_some {t : Table key} {p : ρ → Bool} {r : ρ} (h : t.first p = some r) :
    r ∈ t ∧ p r = true := ⟨List.mem_of_find?_eq_some h, List.find?_some h⟩

theorem first_none {t : Table key} {p : ρ → Bool} (h : t.first p = none) :
    ∀ r ∈ t, p r = false := by
  simpa [first, mem_def] using h

/-- `SELECT * FROM t WHERE p`, in the order of the rows. -/
def select (t : Table key) (p : ρ → Bool) : List ρ := t.rows.filter p

@[simp] theorem mem_select {t : Table key} {p : ρ → Bool} {r : ρ} :
    r ∈ t.select p ↔ r ∈ t ∧ p r = true := List.mem_filter

/-- `UPDATE t SET f WHERE p`, for an `f` which keeps the key. -/
def update (t : Table key) (p : ρ → Bool) (f : ρ → ρ) (hf : ∀ r, key (f r) = key r) :
    Table key where
  rows := t.rows.map fun r => if p r then f r else r
  nodup := by
    have h : (key ∘ fun r => if p r then f r else r) = key := by
      funext r
      by_cases hp : p r <;> simp [hp, hf]
    rw [List.map_map, h]
    exact t.nodup

theorem mem_update {t : Table key} {p : ρ → Bool} {f : ρ → ρ}
    {hf : ∀ r, key (f r) = key r} {s : ρ} :
    s ∈ t.update p f hf ↔ ∃ r ∈ t, s = if p r then f r else r := by
  simp only [mem_def, update, List.mem_map, eq_comm]

/-- The row an update leaves or makes of a row. -/
theorem update_mem {t : Table key} {p : ρ → Bool} {f : ρ → ρ} {hf : ∀ r, key (f r) = key r} {r : ρ}
    (h : r ∈ t) : (if p r then f r else r) ∈ t.update p f hf := mem_update.mpr ⟨r, h, rfl⟩

/-- An update whose guard no row meets changes nothing. -/
theorem update_eq_self {t : Table key} {p : ρ → Bool} {f : ρ → ρ} {hf : ∀ r, key (f r) = key r}
    (h : ∀ r ∈ t, p r = false) : t.update p f hf = t := by
  ext1
  simp only [update]
  conv_rhs => rw [← List.map_id t.rows]
  exact List.map_congr_left fun r hr => by simp [h r hr]

/-- An update which keeps `q` of every row keeps whether some row satisfies it. -/
theorem exist_update {t : Table key} {p q : ρ → Bool} {f : ρ → ρ} (hf : ∀ r, key (f r) = key r)
    (hq : ∀ r, q (f r) = q r) : (t.update p f hf).exist q = t.exist q := by
  have h : (q ∘ fun r => if p r then f r else r) = q := by
    funext r
    by_cases hp : p r <;> simp [hp, hq]
  simp only [exist, update, List.any_map, h]

/-- `DELETE FROM t WHERE p`. -/
def delete (t : Table key) (p : ρ → Bool) : Table key where
  rows := t.rows.filter fun r => !p r
  nodup := t.nodup.sublist (List.filter_sublist.map key)

@[simp] theorem mem_delete {t : Table key} {p : ρ → Bool} {r : ρ} :
    r ∈ t.delete p ↔ r ∈ t ∧ p r = false := by
  simp [mem_def, delete]

/-- The rows in another order. -/
def sortBy (t : Table key) (before : ρ → ρ → Prop) [DecidableRel before] : Table key where
  rows := t.rows.insertionSort before
  nodup := ((t.rows.perm_insertionSort before).map key).nodup_iff.mpr t.nodup

@[simp] theorem mem_sortBy {t : Table key} {before : ρ → ρ → Prop} [DecidableRel before] {r : ρ} :
    r ∈ t.sortBy before ↔ r ∈ t := List.mem_insertionSort before

/-- A table of what is made of each row, under the same keys. -/
def collect {ρ' : Type*} {key' : ρ' → κ} (t : Table key) (f : ρ → Option ρ')
    (hf : ∀ r s, f r = some s → key' s = key r) : Table key' where
  rows := t.rows.filterMap f
  nodup := by
    have hsub : (t.rows.filterMap f).map key' = (t.rows.filter fun r => (f r).isSome).map key := by
      induction t.rows with
      | nil => rfl
      | cons r rows ih =>
        cases hr : f r with
        | none => simpa [hr] using ih
        | some s => simp [hr, ih, hf r s hr]
    rw [hsub]
    exact t.nodup.sublist (List.filter_sublist.map key)

@[simp] theorem mem_collect {ρ' : Type*} {key' : ρ' → κ} {t : Table key} {f : ρ → Option ρ'}
    {hf : ∀ r s, f r = some s → key' s = key r} {s : ρ'} :
    s ∈ t.collect f hf ↔ ∃ r ∈ t, f r = some s :=
  List.mem_filterMap

variable [DecidableEq κ]

/-- The row with a key. -/
def get? (t : Table key) (k : κ) : Option ρ := t.first fun r => decide (key r = k)

theorem get?_eq_some {t : Table key} {k : κ} {r : ρ} : t.get? k = some r ↔ r ∈ t ∧ key r = k := by
  constructor
  · intro h
    exact ⟨(first_some h).1, of_decide_eq_true (first_some h).2⟩
  · rintro ⟨hr, rfl⟩
    cases h : t.get? (key r) with
    | none => simpa using first_none h r hr
    | some s =>
      rw [eq_of_key (first_some h).1 hr (of_decide_eq_true (first_some h).2)]

theorem get?_eq_none {t : Table key} {k : κ} : t.get? k = none ↔ ∀ r ∈ t, key r ≠ k := by
  constructor
  · intro h r hr
    simpa using first_none h r hr
  · intro h
    cases hg : t.get? k with
    | none => rfl
    | some r => exact absurd (get?_eq_some.mp hg).2 (h r (get?_eq_some.mp hg).1)

/-- `INSERT INTO t`, which fails when the key is taken. -/
def insert (t : Table key) (r : ρ) : Option (Table key) :=
  if h : key r ∈ t.rows.map key then none
  else some ⟨t.rows ++ [r], by
    rw [List.map_append, List.nodup_append]
    refine ⟨t.nodup, by simp, ?_⟩
    intro a ha b hb
    rintro rfl
    simp only [List.map_cons, List.map_nil, List.mem_singleton] at hb
    exact h (hb ▸ ha)⟩

theorem insert_eq_none {t : Table key} {r : ρ} : t.insert r = none ↔ ∃ s ∈ t, key s = key r := by
  unfold insert
  split_ifs with h <;> simpa [mem_def] using h

theorem insert_eq_some {t u : Table key} {r : ρ} (h : t.insert r = some u) :
    (∀ s, s ∈ u ↔ s ∈ t ∨ s = r) ∧ ∀ s ∈ t, key s ≠ key r := by
  unfold insert at h
  split_ifs at h with hk
  obtain rfl := Option.some.inj h
  refine ⟨fun s => by simp [mem_def], fun s hs he => hk ?_⟩
  exact List.mem_map.mpr ⟨s, hs, he⟩

theorem insert_rows {t u : Table key} {r : ρ} (h : t.insert r = some u) :
    u.rows = t.rows ++ [r] := by
  unfold insert at h
  split_ifs at h with hk
  obtain rfl := Option.some.inj h
  rfl

/-- `INSERT ... ON CONFLICT(key) DO UPDATE SET f WHERE p`: the row is added when
its key is free; otherwise the row that holds the key is updated if it meets `p`. -/
def upsert (t : Table key) (r : ρ) (p : ρ → Bool) (f : ρ → ρ) (hf : ∀ r, key (f r) = key r) :
    Table key :=
  (t.insert r).getD (t.update (fun s => decide (key s = key r) && p s) f hf)

theorem mem_upsert {t : Table key} {r s : ρ} {p : ρ → Bool} {f : ρ → ρ}
    {hf : ∀ r, key (f r) = key r} : s ∈ t.upsert r p f hf ↔
      ((∀ q ∈ t, key q ≠ key r) ∧ (s ∈ t ∨ s = r)) ∨
      ((∃ q ∈ t, key q = key r) ∧
        ∃ q ∈ t, s = if key q = key r ∧ p q = true then f q else q) := by
  unfold upsert
  cases h : t.insert r with
  | none =>
    have hk := insert_eq_none.mp h
    have hn : ¬ ∀ q ∈ t, key q ≠ key r := by push Not; exact hk
    simp only [Option.getD_none, mem_update, Bool.and_eq_true, decide_eq_true_eq]
    tauto
  | some u =>
    have hk := insert_eq_some h
    have hn : ¬ ∃ q ∈ t, key q = key r := by push Not; exact hk.2
    simp only [Option.getD_some, hk.1]
    tauto

theorem mem_of_get? {t : Table key} {k : κ} {r : ρ} (h : t.get? k = some r) : r ∈ t :=
  (get?_eq_some.mp h).1

theorem get?_of_mem {t : Table key} {r : ρ} (h : r ∈ t) : t.get? (key r) = some r :=
  get?_eq_some.mpr ⟨h, rfl⟩

/-- Write a row whatever was there under its key: the `put` of an object store. -/
def put (t : Table key) (r : ρ) : Table key :=
  t.upsert r (fun _ => true) (fun s => if key s = key r then r else s) fun s => by
    split_ifs with h
    · exact h.symm
    · rfl

theorem mem_put {t : Table key} {r s : ρ} : s ∈ t.put r ↔ s = r ∨ (s ∈ t ∧ key s ≠ key r) := by
  simp only [put, mem_upsert, and_true]
  constructor
  · intro h
    rcases h with ⟨hfree, hs | rfl⟩ | ⟨_, q, hq, rfl⟩
    · exact Or.inr ⟨hs, hfree s hs⟩
    · exact Or.inl rfl
    · by_cases hk : key q = key r
      · exact Or.inl (by simp [hk])
      · exact Or.inr (by simpa [hk] using hq)
  · intro h
    by_cases hex : ∃ q ∈ t, key q = key r
    · obtain ⟨q, hq, hk⟩ := hex
      rcases h with rfl | ⟨hs, hne⟩
      · exact Or.inr ⟨⟨q, hq, hk⟩, q, hq, by simp [hk]⟩
      · exact Or.inr ⟨⟨q, hq, hk⟩, s, hs, by simp [hne]⟩
    · push Not at hex
      exact Or.inl ⟨hex, h.symm.imp_left And.left⟩

theorem get?_put {t : Table key} {r : ρ} {k : κ} :
    (t.put r).get? k = if k = key r then some r else t.get? k := by
  split_ifs with h
  · exact get?_eq_some.mpr ⟨mem_put.mpr (Or.inl rfl), h.symm⟩
  · ext s
    simp only [get?_eq_some, mem_put]
    constructor
    · intro ⟨hs, hk⟩
      rcases hs with rfl | ⟨hs, _⟩
      · exact absurd hk.symm h
      · exact ⟨hs, hk⟩
    · intro ⟨hs, hk⟩
      exact ⟨Or.inr ⟨hs, fun he => h (hk.symm.trans he)⟩, hk⟩

theorem get?_update {t : Table key} {p : ρ → Bool} {f : ρ → ρ}
    {hf : ∀ r, key (f r) = key r} {k : κ} :
    (t.update p f hf).get? k = (t.get? k).map fun r => if p r then f r else r := by
  have hkey : ∀ r, key (if p r then f r else r) = key r := fun r => by split_ifs <;> simp [hf]
  ext s
  rw [get?_eq_some, mem_update, Option.map_eq_some_iff]
  constructor
  · intro ⟨⟨r, hr, hs⟩, hk⟩
    exact ⟨r, get?_eq_some.mpr ⟨hr, by rw [← hk, hs, hkey]⟩, hs.symm⟩
  · intro ⟨r, hr, hs⟩
    obtain ⟨hr, hk⟩ := get?_eq_some.mp hr
    exact ⟨⟨r, hr, hs.symm⟩, by rw [← hs, hkey, hk]⟩

theorem get?_delete {t : Table key} {p : ρ → Bool} {k : κ} :
    (t.delete p).get? k = (t.get? k).filter fun r => !p r := by
  ext s
  rw [get?_eq_some, mem_delete, Option.filter_eq_some_iff, get?_eq_some, Bool.not_eq_true']
  tauto

theorem get?_insert {t u : Table key} {r : ρ} (h : t.insert r = some u) {k : κ} :
    u.get? k = if k = key r then some r else t.get? k := by
  obtain ⟨hmem, hfree⟩ := insert_eq_some h
  split_ifs with hk
  · exact get?_eq_some.mpr ⟨(hmem r).mpr (Or.inr rfl), hk.symm⟩
  · ext s
    rw [get?_eq_some, get?_eq_some, hmem]
    exact and_congr_left fun hs => or_iff_left fun he => hk (hs.symm.trans (congrArg key he))

end Table
end SendSelf

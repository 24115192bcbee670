import Mathlib.Data.List.Basic
import Mathlib.Data.Nat.Digits.Lemmas

/-!
# Reading a joined text back

Two ways of writing fields one after the other so that they can be told apart again. Fields
that a separator stands between are read by cutting at the separator, which works when it
occurs in none of them; two lists of the same number of fields are told apart already when
it occurs in none of the fields of one of them, since the other list, having as many
separators in all, has none to spare. A field that says where it ends needs no separator:
whatever follows it, it is read the same.
-/
namespace SendSelf.Framing

variable {α : Type*}

/-- Cut at the first separator. -/
theorem cut {c : α} {x y r s : List α} (hx : c ∉ x) (hy : c ∉ y) (h : x ++ c :: r = y ++ c :: s) :
    x = y ∧ r = s := by
  induction x generalizing y with
  | nil =>
    cases y with
    | nil => exact ⟨rfl, (List.cons.inj h).2⟩
    | cons b y => exact absurd (List.cons.inj h).1 fun hb => hy (hb ▸ List.mem_cons_self)
  | cons a x ih =>
    cases y with
    | nil => exact absurd (List.cons.inj h).1 fun ha => hx (ha ▸ List.mem_cons_self)
    | cons b y =>
      obtain ⟨hab, ht⟩ := List.cons.inj h
      obtain ⟨hxy, hrs⟩ :=
        ih (fun hc => hx (List.mem_cons_of_mem a hc)) (fun hc => hy (List.mem_cons_of_mem b hc)) ht
      exact ⟨by rw [hab, hxy], hrs⟩

/-- Cut at the last separator. -/
theorem cut_last {c : α} {x y r s : List α} (hr : c ∉ r) (hs : c ∉ s)
    (h : x ++ c :: r = y ++ c :: s) :
    x = y ∧ r = s := by
  have hrev := congrArg List.reverse h
  simp only [List.reverse_append, List.reverse_cons, List.append_assoc,
    List.singleton_append] at hrev
  obtain ⟨h₁, h₂⟩ :=
    cut (fun hm => hr (List.mem_reverse.mp hm)) (fun hm => hs (List.mem_reverse.mp hm)) hrev
  exact ⟨List.reverse_injective h₂, List.reverse_injective h₁⟩

/-- `join c ps` has the fields `ps`, with `c` between one and the next. -/
abbrev join (c : α) (ps : List (List α)) : List α := [c].intercalate ps

theorem join_cons {c : α} {p : List α} {ps : List (List α)} (h : ps ≠ []) :
    join c (p :: ps) = p ++ c :: join c ps := by
  rw [join, List.intercalate_cons_of_ne_nil h, List.append_assoc, List.singleton_append]

section Count

variable [DecidableEq α] {c : α}

/-- The separators of a joined text: those between the fields and those within them. -/
theorem count_join (c : α) (ps : List (List α)) :
    (join c ps).count c = ps.length - 1 + (ps.map (·.count c)).sum := by
  induction ps with
  | nil => rfl
  | cons p ps ih =>
    by_cases h : ps = []
    · subst h
      simp [join]
    · have hl : 0 < ps.length := List.length_pos_iff.mpr h
      rw [join_cons h, List.count_append, List.count_cons_self, ih, List.map_cons, List.sum_cons,
        List.length_cons]
      omega

theorem sum_count_eq_zero {ps : List (List α)} :
    (ps.map (·.count c)).sum = 0 ↔ ∀ p ∈ ps, c ∉ p := by
  induction ps with
  | nil => simp
  | cons p ps ih =>
    rw [List.map_cons, List.sum_cons, Nat.add_eq_zero_iff, ih, List.count_eq_zero,
      List.forall_mem_cons]

/-- A text of fields without the separator has one reading with that number of fields,
whatever the fields of the other reading are. -/
theorem join_inj_of_free {ps qs : List (List α)} (hl : ps.length = qs.length) (hp : ∀ p ∈ ps, c ∉ p)
    (h : join c ps = join c qs) : ps = qs := by
  have hq : ∀ q ∈ qs, c ∉ q := by
    have hc := congrArg (List.count c) h
    rw [count_join, count_join, sum_count_eq_zero.mpr hp, hl] at hc
    exact sum_count_eq_zero.mp (by omega)
  by_cases hn : ps = []
  · subst hn
    exact (List.length_eq_zero_iff.mp hl.symm).symm
  · have hn' : qs ≠ [] := by
      rintro rfl
      exact hn (List.length_eq_zero_iff.mp hl)
    rw [← List.splitOn_intercalate c hp hn, ← List.splitOn_intercalate c hq hn']
    exact congrArg (List.splitOn c) h

end Count

/-- A way of writing fields that says where each one ends. -/
def SelfDelimiting {β : Type*} (write : β → List α) : Prop :=
  ∀ a b r s, write a ++ r = write b ++ s → a = b ∧ r = s

namespace SelfDelimiting

variable {β : Type*} {write : β → List α}

theorem injective (h : SelfDelimiting write) : Function.Injective write := fun a b he =>
  (h a b [] [] (congrArg (· ++ []) he)).1

/-- Self-delimiting fields of one number are told apart, whatever stands between them. -/
theorem join_inj (h : SelfDelimiting write) {c : α} :
    ∀ {as bs : List β}, as.length = bs.length →
      join c (as.map write) = join c (bs.map write) → as = bs
  | [], [], _, _ => rfl
  | [a], [b], _, he => by
    have he' : write a = write b := by simpa [join] using he
    rw [h.injective he']
  | a :: a' :: as, b :: b' :: bs, hl, he => by
    have hj : ∀ d d' (ds : List β),
        join c ((d :: d' :: ds).map write) = write d ++ c :: join c ((d' :: ds).map write) :=
      fun d d' ds => join_cons (List.cons_ne_nil _ _)
    rw [hj, hj] at he
    obtain ⟨hab, hr⟩ := h a b _ _ he
    rw [hab, h.join_inj (Nat.succ.inj hl) (List.cons.inj hr).2]

/-- A text that starts with its own length: a length that ends where the separator is, and as
many letters after it. -/
theorem prefixed {c : α} {len : ℕ → List α} (hinj : Function.Injective len)
    (hfree : ∀ n, c ∉ len n) :
    SelfDelimiting fun w : List α => len w.length ++ c :: w := by
  intro a b r s h
  simp only [List.append_assoc, List.cons_append] at h
  obtain ⟨hl, hr⟩ := cut (hfree _) (hfree _) h
  exact List.append_inj hr (hinj hl)

end SelfDelimiting

/-- A number written in base ten, its highest digit first. -/
def decimal (n : ℕ) : List ℕ := if n = 0 then [0] else (Nat.digits 10 n).reverse

theorem decimal_injective : Function.Injective decimal := by
  have hz : ∀ n, n ≠ 0 → (Nat.digits 10 n).reverse ≠ [0] := by
    intro n hn h
    have hd : Nat.digits 10 n = [0] := by simpa using congrArg List.reverse h
    have := Nat.ofDigits_digits 10 n
    rw [hd] at this
    exact hn this.symm
  intro m n h
  unfold decimal at h
  split_ifs at h with hm hn hn
  · rw [hm, hn]
  · exact absurd h.symm (hz n hn)
  · exact absurd h (hz m hm)
  · exact Nat.digits_inj_iff.mp (List.reverse_injective h)

theorem lt_of_mem_decimal {n d : ℕ} (h : d ∈ decimal n) : d < 10 := by
  unfold decimal at h
  split_ifs at h with hn
  · rw [List.mem_singleton.mp h]
    decide
  · exact Nat.digits_lt_base (by decide) (List.mem_reverse.mp h)

end SendSelf.Framing

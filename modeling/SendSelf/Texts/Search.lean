import Mathlib.Data.List.Infix
import Mathlib.Data.List.Basic
import Mathlib.Tactic.Common

/-!
# Searching the conversation

Matching compares texts folded one character at a time, and a match is mapped back to the
characters that its first and its last code unit came from. So the ranges of two matches
overlap exactly when the one ends and the next begins within what one character folds to.
-/
namespace SendSelf.Search

section Pieces
variable {α : Type}

/-- Where the `n`-th of the pieces starts in their concatenation. -/
def offset (pieces : List (List α)) (n : ℕ) : ℕ := (pieces.take n).flatten.length

@[simp] theorem offset_zero (ps : List (List α)) : offset ps 0 = 0 := rfl

@[simp] theorem offset_cons (p : List α) (ps : List (List α)) (n : ℕ) :
    offset (p :: ps) (n + 1) = p.length + offset ps n := by
  simp only [offset, List.take_succ_cons, List.flatten_cons, List.length_append]

theorem offset_add (ps : List (List α)) (m n : ℕ) :
    offset ps (m + n) = offset ps m + offset (ps.drop m) n := by
  simp only [offset, List.take_add, List.flatten_append, List.length_append]

theorem offset_mono (ps : List (List α)) {m n : ℕ} (h : m ≤ n) : offset ps m ≤ offset ps n := by
  have hn : m + (n - m) = n := by omega
  rw [← hn, offset_add]
  exact Nat.le_add_right _ _

theorem offset_le_length (ps : List (List α)) (n : ℕ) : offset ps n ≤ ps.flatten.length := by
  conv_rhs => rw [← List.take_append_drop n ps, List.flatten_append, List.length_append]
  exact Nat.le_add_right _ _

theorem offset_succ_lt {ps : List (List α)} (hne : ∀ p ∈ ps, p ≠ []) {n : ℕ} (h : n < ps.length) :
    offset ps n < offset ps (n + 1) := by
  have hp := List.length_pos_of_ne_nil (hne _ (List.getElem_mem h))
  rw [offset_add, List.drop_eq_getElem_cons h, offset_cons, offset_zero]
  omega

/-- Every position of the concatenation lies in one of the pieces. -/
theorem exists_piece {ps : List (List α)} {k : ℕ} (h : k < ps.flatten.length) :
    ∃ n < ps.length, offset ps n ≤ k ∧ k < offset ps (n + 1) := by
  induction ps generalizing k with
  | nil => exact absurd h (Nat.not_lt_zero k)
  | cons p ps ih =>
      rw [List.flatten_cons, List.length_append] at h
      by_cases hk : k < p.length
      · exact ⟨0, Nat.succ_pos _, Nat.zero_le k, by simpa using hk⟩
      · obtain ⟨n, hn, hlo, hhi⟩ := ih (k := k - p.length) (by omega)
        refine ⟨n + 1, Nat.succ_lt_succ hn, ?_, ?_⟩
        · rw [offset_cons]
          omega
        · rw [offset_cons]
          omega

/-- Whole pieces cut out of a concatenation. -/
theorem flatten_slice (ps : List (List α)) (m n : ℕ) :
    ((ps.drop m).take n).flatten =
      (ps.flatten.drop (offset ps m)).take (offset ps (m + n) - offset ps m) := by
  have hdrop : ps.flatten.drop (offset ps m) = (ps.drop m).flatten := by
    conv_lhs => rw [← List.take_append_drop m ps, List.flatten_append]
    exact List.drop_left' (by rw [List.take_append_drop]; rfl)
  rw [hdrop, offset_add, Nat.add_sub_cancel_left]
  conv_rhs => rw [← List.take_append_drop n (ps.drop m), List.flatten_append]
  exact (List.take_left' (by rw [List.take_append_drop]; rfl)).symm

end Pieces

def isHigh (u : ℕ) : Bool := decide (0xD800 ≤ u ∧ u < 0xDC00)
def isLow (u : ℕ) : Bool := decide (0xDC00 ≤ u ∧ u < 0xE000)

/-- The characters of a text of UTF-16 code units, as iterating over it yields them. -/
def chars : List ℕ → List (List ℕ)
  | [] => []
  | [u] => [[u]]
  | u :: v :: text => if isHigh u && isLow v then [u, v] :: chars text else [u] :: chars (v :: text)

def asciiLower (u : ℕ) : ℕ := if 65 ≤ u ∧ u ≤ 90 then u + 32 else u

/-- Decomposing a character, stripping its marks and lower-casing it, of which only the
ASCII part is fixed here. -/
structure Folding where
  foldChar : List ℕ → List ℕ
  ascii : ∀ u < 128, foldChar [u] = [asciiLower u]

def asciiOnly (text : List ℕ) : Bool := text.all fun u => decide (u < 128)

structure Folded where
  folded : List ℕ
  starts : Option (List ℕ)
  ends : Option (List ℕ)
deriving DecidableEq

variable (f : Folding)

/-- The loop of `fold` over the characters from the one that starts at `pos`. -/
def foldLoop (folded starts ends : List ℕ) (pos : ℕ) : List (List ℕ) → Folded
  | [] => ⟨folded, some starts, some ends⟩
  | char :: rest =>
      let piece := f.foldChar char
      foldLoop (folded ++ piece) (starts ++ List.replicate piece.length pos)
        (ends ++ List.replicate piece.length (pos + char.length)) (pos + char.length) rest

def fold (text : List ℕ) : Folded :=
  if asciiOnly text then ⟨text.map asciiLower, none, none⟩ else foldLoop f [] [] [] 0 (chars text)

/-- `s.indexOf(needle, start)`. -/
def indexOf (s needle : List ℕ) (start : ℕ) : Option ℕ :=
  (List.range (s.length + 1)).find? fun i => decide (start ≤ i) && needle.isPrefixOf (s.drop i)

def matchesText (text needle : List ℕ) : Bool :=
  decide (needle ≠ []) && (indexOf (fold f text).folded needle 0).isSome

theorem indexOf_some {s needle : List ℕ} {start i : ℕ} (h : indexOf s needle start = some i) :
    start ≤ i ∧ i ≤ s.length ∧ needle <+: s.drop i := by
  have hp := List.find?_some h
  have hm := List.mem_range.mp (List.mem_of_find?_eq_some h)
  simp only [Bool.and_eq_true, decide_eq_true_eq, List.isPrefixOf_iff_prefix] at hp
  exact ⟨hp.1, by omega, hp.2⟩

/-- Where the loop of `findRanges` finds the needle, from `start` on. -/
def occurrences (s needle : List ℕ) (start : ℕ) : List ℕ :=
  match _h : indexOf s needle start with
  | none => []
  | some i => if _hn : needle = [] then [] else i :: occurrences s needle (i + needle.length)
termination_by s.length + 1 - start
decreasing_by
  have hi := indexOf_some _h
  have hpos := List.length_pos_of_ne_nil _hn
  omega

/-- The range of the text that the match at `i` of so many code units came from. -/
def rangeOf (folded : Folded) (length i : ℕ) : ℕ × ℕ :=
  match folded.starts, folded.ends with
  | some starts, some ends => (starts.getD i 0, ends.getD (i + length - 1) 0)
  | _, _ => (i, i + length)

def findRanges (text needle : List ℕ) : List (ℕ × ℕ) :=
  if needle = [] then []
  else (occurrences (fold f text).folded needle 0).map (rangeOf (fold f text) needle.length)

def slice (text : List ℕ) (r : ℕ × ℕ) : List ℕ := (text.drop r.1).take (r.2 - r.1)

/-- The needle is found here, going from match to match without overlap. -/
inductive Matched (s needle : List ℕ) : ℕ → Prop
  | first {i : ℕ} (h : indexOf s needle 0 = some i) : Matched s needle i
  | next {i j : ℕ} (hi : Matched s needle i) (h : indexOf s needle (i + needle.length) = some j) :
      Matched s needle j

structure WellFormed (text needle : List ℕ) : Prop where
  nonempty : ∀ r ∈ findRanges f text needle, r.1 < r.2
  within : ∀ r ∈ findRanges f text needle, r.2 ≤ text.length
  disjoint : (findRanges f text needle).Pairwise fun r r' => r.2 ≤ r'.1
  found : findRanges f text needle ≠ [] ↔ matchesText f text needle = true
  contains : ∀ r ∈ findRanges f text needle, needle <:+: (fold f (slice text r)).folded

/-- What the characters of a text fold to. -/
def pieces (text : List ℕ) : List (List ℕ) := (chars text).map f.foldChar

/-- A match ends, and the next begins, within what one character folds to. -/
def Cut (text needle : List ℕ) : Prop :=
  needle ≠ [] ∧ ∃ i j n, Matched (fold f text).folded needle i ∧
    indexOf (fold f text).folded needle (i + needle.length) = some j ∧ n < (chars text).length ∧
    offset (pieces f text) n < i + needle.length ∧ j < offset (pieces f text) (n + 1)

theorem chars_flatten (text : List ℕ) : (chars text).flatten = text := by
  induction text using chars.induct with
  | case1 => rfl
  | case2 u => rfl
  | case3 u v text h ih =>
    rw [chars, if_pos h, List.flatten_cons, ih, List.cons_append, List.singleton_append]
  | case4 u v text h ih => rw [chars, if_neg h, List.flatten_cons, ih, List.singleton_append]

theorem chars_ne_nil (text : List ℕ) : ∀ c ∈ chars text, c ≠ [] := by
  induction text using chars.induct with
  | case1 => exact fun c hc => absurd hc List.not_mem_nil
  | case2 u => simp [chars]
  | case3 u v text h ih => simpa [chars, h] using ih
  | case4 u v text h ih => simpa [chars, h] using ih

theorem chars_drop (text : List ℕ) (m : ℕ) :
    chars ((chars text).drop m).flatten = (chars text).drop m := by
  induction text using chars.induct generalizing m with
  | case1 => simp [chars]
  | case2 u => cases m <;> simp [chars]
  | case3 u v text h ih =>
      cases m with
      | zero => rw [List.drop_zero, chars_flatten]
      | succ m => rw [chars, if_pos h, List.drop_succ_cons, ih]
  | case4 u v text h ih =>
      cases m with
      | zero => rw [List.drop_zero, chars_flatten]
      | succ m => rw [chars, if_neg h, List.drop_succ_cons, ih]

/-- The first character of a text begins with its first code unit. -/
theorem chars_cons (v : ℕ) (text : List ℕ) : ∃ c rest, chars (v :: text) = (v :: c) :: rest := by
  cases text with
  | nil => exact ⟨[], [], rfl⟩
  | cons w text =>
      rw [chars]
      split_ifs
      · exact ⟨[w], _, rfl⟩
      · exact ⟨[], _, rfl⟩

theorem chars_take (text : List ℕ) (n : ℕ) :
    chars ((chars text).take n).flatten = (chars text).take n := by
  induction text using chars.induct generalizing n with
  | case1 => simp [chars]
  | case2 u => cases n <;> simp [chars]
  | case3 u v text h ih =>
      cases n with
      | zero => rfl
      | succ n =>
          rw [chars, if_pos h, List.take_succ_cons, List.flatten_cons, List.cons_append,
            List.singleton_append, chars,
            if_pos h, ih]
  | case4 u v text h ih =>
      rw [chars, if_neg h]
      cases n with
      | zero => rfl
      | succ n =>
          have hn := ih n
          rw [List.take_succ_cons, List.flatten_cons, List.singleton_append]
          cases n with
          | zero => rfl
          | succ n =>
              obtain ⟨c, rest, hc⟩ := chars_cons v text
              rw [hc, List.take_succ_cons, List.flatten_cons, List.cons_append] at hn ⊢
              rw [chars, if_neg h, hn]

theorem chars_ascii {text : List ℕ} (h : asciiOnly text = true) :
    chars text = text.map fun u => [u] := by
  induction text using chars.induct with
  | case1 => rfl
  | case2 u => rfl
  | case3 u v text hs ih =>
      simp only [asciiOnly, List.all_cons, Bool.and_eq_true, decide_eq_true_eq] at h
      simp only [isHigh, isLow, Bool.and_eq_true, decide_eq_true_eq] at hs
      omega
  | case4 u v text hs ih =>
      have hrest : asciiOnly (v :: text) = true := by
        simp only [asciiOnly, List.all_cons, Bool.and_eq_true] at h ⊢
        exact h.2
      rw [chars, if_neg hs, List.map_cons, ih hrest]

variable {f}

theorem offset_singletons {α β : Type} (g : α → β) {l : List α} {n : ℕ} (h : n ≤ l.length) :
    offset (l.map fun a => [g a]) n = n := by
  induction l generalizing n with
  | nil => rw [Nat.le_zero.mp h, offset_zero]
  | cons a l ih =>
      cases n with
      | zero => rfl
      | succ n =>
          rw [List.map_cons, offset_cons, ih (by simpa using h), List.length_singleton]
          omega

theorem pieces_ascii {text : List ℕ} (h : asciiOnly text = true) :
    pieces f text = text.map fun u => [asciiLower u] := by
  rw [pieces, chars_ascii h, List.map_map]
  refine List.map_congr_left fun u hu => f.ascii u ?_
  simpa using List.all_eq_true.mp h u hu

/-- For each code unit of the folded text, where its character starts and ends. -/
def marks (f : Folding) (pos : ℕ) : List (List ℕ) → List (ℕ × ℕ)
  | [] => []
  | char :: rest =>
      List.replicate (f.foldChar char).length (pos, pos + char.length) ++
        marks f (pos + char.length) rest

theorem foldLoop_eq (cs : List (List ℕ)) (folded starts ends : List ℕ) (pos : ℕ) :
    foldLoop f folded starts ends pos cs = ⟨folded ++ (cs.map f.foldChar).flatten,
      some (starts ++ (marks f pos cs).map Prod.fst),
      some (ends ++ (marks f pos cs).map Prod.snd)⟩ := by
  induction cs generalizing folded starts ends pos with
  | nil => simp [foldLoop, marks]
  | cons c cs ih => simp [foldLoop, marks, ih]

theorem fold_folded (text : List ℕ) : (fold f text).folded = (pieces f text).flatten := by
  rw [fold]
  split_ifs with h
  · rw [pieces_ascii h, List.map_eq_flatMap, List.flatMap_def]
  · rw [foldLoop_eq, List.nil_append, pieces]

theorem marks_getElem? {cs : List (List ℕ)} {n k pos : ℕ} (hlo : offset (cs.map f.foldChar) n ≤ k)
    (hhi : k < offset (cs.map f.foldChar) (n + 1)) :
    (marks f pos cs)[k]? = some (pos + offset cs n, pos + offset cs (n + 1)) := by
  induction cs generalizing n k pos with
  | nil => exact absurd hhi (Nat.not_lt_zero k)
  | cons c cs ih =>
      rw [List.map_cons] at hlo hhi
      rw [offset_cons] at hhi
      rw [marks]
      cases n with
      | zero =>
          rw [offset_zero, Nat.add_zero] at hhi
          rw [List.getElem?_append_left (by simpa using hhi), List.getElem?_replicate, if_pos hhi]
          simp
      | succ n =>
          rw [offset_cons] at hlo
          have hk : (f.foldChar c).length ≤ k := by omega
          rw [List.getElem?_append_right (by simpa using hk), List.length_replicate,
            ih (n := n) (by omega) (by omega), offset_cons, offset_cons, Nat.add_assoc,
            Nat.add_assoc]

/-- A match from within one character to within another is mapped back to their ends. -/
theorem rangeOf_eq {text : List ℕ} {length i m n : ℕ} (hm : m < (chars text).length)
    (hn : n < (chars text).length)
    (hstart : offset (pieces f text) m ≤ i) (hstart' : i < offset (pieces f text) (m + 1))
    (hend : offset (pieces f text) n < i + length)
    (hend' : i + length ≤ offset (pieces f text) (n + 1)) :
    rangeOf (fold f text) length i = (offset (chars text) m, offset (chars text) (n + 1)) := by
  rw [fold]
  split_ifs with h
  · have hlength : (chars text).length = text.length := by rw [chars_ascii h, List.length_map]
    rw [pieces_ascii h, offset_singletons asciiLower (by omega)] at hstart hstart' hend hend'
    rw [chars_ascii h, offset_singletons (fun u : ℕ => u) (by omega),
      offset_singletons (fun u : ℕ => u) (by omega)]
    simp only [rangeOf, Prod.mk.injEq]
    omega
  · have hlast : offset (pieces f text) n ≤ i + length - 1 := by omega
    have hlast' : i + length - 1 < offset (pieces f text) (n + 1) := by omega
    rw [foldLoop_eq]
    simp only [rangeOf, List.nil_append, List.getD_eq_getElem?_getD, List.getElem?_map]
    rw [marks_getElem? hstart hstart', marks_getElem? hlast hlast']
    simp

theorem occurrences_none {s needle : List ℕ} {start : ℕ} (h : indexOf s needle start = none) :
    occurrences s needle start = [] := by
  rw [occurrences]
  split
  · rfl
  · simp_all

theorem occurrences_some {s needle : List ℕ} {start i : ℕ} (hne : needle ≠ [])
    (h : indexOf s needle start = some i) :
    occurrences s needle start = i :: occurrences s needle (i + needle.length) := by
  rw [occurrences]
  split
  · simp_all
  · simp_all

theorem match_lt {s needle : List ℕ} {start i : ℕ} (h : indexOf s needle start = some i)
    (hne : needle ≠ []) :
    i + needle.length ≤ s.length := by
  have hi := indexOf_some h
  have hlen := hi.2.2.length_le
  have hpos := List.length_pos_of_ne_nil hne
  rw [List.length_drop] at hlen
  omega

/-- Whatever is found from `start` on is a match at or after the first one. -/
theorem mem_occurrences {s needle : List ℕ} (hne : needle ≠ []) {start k : ℕ}
    (h : k ∈ occurrences s needle start) :
    (∃ i, indexOf s needle start = some i ∧ i ≤ k) ∧ ∃ start',
    indexOf s needle start' = some k := by
  induction start using occurrences.induct s needle with
  | case1 start hnone =>
      rw [occurrences_none hnone] at h
      exact absurd h List.not_mem_nil
  | case2 start i hi hnil => exact absurd hnil hne
  | case3 start i hi hne ih =>
      rw [occurrences_some hne hi] at h
      rcases List.mem_cons.mp h with rfl | hk
      · exact ⟨⟨k, hi, Nat.le_refl k⟩, start, hi⟩
      · obtain ⟨hfirst, hfound⟩ := ih hk
        obtain ⟨j, hj, hjk⟩ := hfirst
        have hij := (indexOf_some hj).1
        exact ⟨⟨i, hi, by omega⟩, hfound⟩

theorem Matched.found {s needle : List ℕ} {i : ℕ} (h : Matched s needle i) :
    ∃ start, indexOf s needle start = some i := by
  cases h with
  | first h => exact ⟨0, h⟩
  | next _ h => exact ⟨_, h⟩

theorem matched_suffix {s needle : List ℕ} (hne : needle ≠ []) {i : ℕ} (h : Matched s needle i) :
    i :: occurrences s needle (i + needle.length) <:+ occurrences s needle 0 := by
  induction h with
  | first h => rw [← occurrences_some hne h]
  | next hi h ih =>
      rw [occurrences_some hne h] at ih
      exact (List.suffix_cons _ _).trans ih

theorem infix_slice {s needle : List ℕ} {a b i : ℕ} (h : needle <+: s.drop i) (ha : a ≤ i)
    (hb : i + needle.length ≤ b) :
    needle <:+: (s.drop a).take (b - a) := by
  have hpre : needle <+: ((s.drop a).take (b - a)).drop (i - a) := by
    rw [List.drop_take, List.drop_drop, Nat.add_sub_cancel' ha, List.prefix_take_iff]
    exact ⟨h, by omega⟩
  exact hpre.isInfix.trans (List.drop_suffix _ _).isInfix

/-- The characters that a match begins and ends in. -/
theorem match_range {text needle : List ℕ} (hne : needle ≠ []) {start i : ℕ}
    (h : indexOf (fold f text).folded needle start = some i) :
    ∃ m n, m ≤ n ∧ n < (chars text).length ∧ offset (pieces f text) m ≤ i ∧
      i < offset (pieces f text) (m + 1) ∧
      offset (pieces f text) n < i + needle.length ∧
      i + needle.length ≤ offset (pieces f text) (n + 1) ∧
      rangeOf (fold f text) needle.length i =
        (offset (chars text) m, offset (chars text) (n + 1)) := by
  have hlt := match_lt h hne
  have hpos := List.length_pos_of_ne_nil hne
  have hlength : (pieces f text).length = (chars text).length := List.length_map ..
  rw [fold_folded] at hlt
  have hfirst : i < (pieces f text).flatten.length := by omega
  have hlast : i + needle.length - 1 < (pieces f text).flatten.length := by omega
  obtain ⟨m, hm, hlo, hhi⟩ := exists_piece hfirst
  obtain ⟨n, hn, hlo', hhi'⟩ := exists_piece hlast
  have hmn : m ≤ n := by
    by_contra hlt
    have hmono := offset_mono (pieces f text) (show n + 1 ≤ m by omega)
    omega
  exact ⟨m, n, hmn, by omega, hlo, hhi, by omega, by omega,
    rangeOf_eq (by omega) (by omega) hlo hhi (by omega) (by omega)⟩

/-- The needle in what the characters around a match fold to. -/
theorem contains_match {text needle : List ℕ} {start i m n : ℕ} (hmn : m ≤ n)
    (h : indexOf (fold f text).folded needle start = some i) (hlo : offset (pieces f text) m ≤ i)
    (hhi : i + needle.length ≤ offset (pieces f text) (n + 1)) :
    needle <:+:
      (fold f (slice text (offset (chars text) m, offset (chars text) (n + 1)))).folded := by
  have hn : m + (n + 1 - m) = n + 1 := by omega
  have hslice := flatten_slice (chars text) m (n + 1 - m)
  have hpieces := flatten_slice (pieces f text) m (n + 1 - m)
  rw [hn, chars_flatten] at hslice
  rw [hn, ← fold_folded] at hpieces
  have hchars : chars (slice text (offset (chars text) m, offset (chars text) (n + 1))) =
      ((chars text).drop m).take (n + 1 - m) := by
    rw [slice, ← hslice, ← chars_drop text m, chars_take]
  rw [fold_folded, pieces, hchars, List.map_take, List.map_drop, ← pieces, hpieces]
  exact infix_slice (indexOf_some h).2.2 hlo hhi

/-- Matches that do not meet in a character are mapped back to disjoint ranges. -/
theorem disjoint_of_not_cut {text needle : List ℕ} (hne : needle ≠ []) (hcut : ¬ Cut f text needle)
    {i j k start : ℕ} (hi : Matched (fold f text).folded needle i)
    (hj : indexOf (fold f text).folded needle (i + needle.length) = some j)
    (hk : indexOf (fold f text).folded needle start = some k) (hjk : j ≤ k) :
    (rangeOf (fold f text) needle.length i).2 ≤ (rangeOf (fold f text) needle.length k).1 := by
  obtain ⟨at', hi'⟩ := hi.found
  obtain ⟨m, n, _, hn, _, _, hend, _, hrange⟩ := match_range hne hi'
  obtain ⟨m', n', _, hn', _, hstart', _, _, hrange'⟩ := match_range hne hk
  have hij := (indexOf_some hj).1
  have hjn : offset (pieces f text) (n + 1) ≤ j :=
    Nat.le_of_not_lt fun h => hcut ⟨hne, i, j, n, hi, hj, hn, hend, h⟩
  have hnm : n + 1 ≤ m' := by
    by_contra hlt
    have hmono := offset_mono (pieces f text) (show m' + 1 ≤ n + 1 by omega)
    omega
  rw [hrange, hrange']
  exact offset_mono (chars text) hnm

theorem ranges_disjoint {text needle : List ℕ} (hne : needle ≠ [])
    (hcut : ¬ Cut f text needle) (start : ℕ)
    (hreach : ∀ i, indexOf (fold f text).folded needle start = some i →
      Matched (fold f text).folded needle i) :
    ((occurrences (fold f text).folded needle start).map
      (rangeOf (fold f text) needle.length)).Pairwise
      fun r r' => r.2 ≤ r'.1 := by
  induction start using occurrences.induct (fold f text).folded needle with
  | case1 start hnone =>
      rw [occurrences_none hnone]
      exact List.Pairwise.nil
  | case2 start i hi hnil => exact absurd hnil hne
  | case3 start i hi hne ih =>
      rw [occurrences_some hne hi, List.map_cons, List.pairwise_cons]
      refine ⟨fun r hr => ?_, ih fun j hj => .next (hreach i hi) hj⟩
      obtain ⟨k, hk, rfl⟩ := List.mem_map.mp hr
      obtain ⟨hfirst, at', hfound⟩ := mem_occurrences hne hk
      obtain ⟨j, hj, hjk⟩ := hfirst
      exact disjoint_of_not_cut hne hcut (hreach i hi) hj hfound hjk

/-- Two matches that meet in a character are both mapped back to all of it. -/
theorem not_disjoint_of_cut {text needle : List ℕ} (hcut : Cut f text needle) :
    ¬ (findRanges f text needle).Pairwise fun r r' => r.2 ≤ r'.1 := by
  obtain ⟨hne, i, j, n, hi, hj, hn, hend, hstart⟩ := hcut
  intro hdisjoint
  rw [findRanges, if_neg hne] at hdisjoint
  have htwo := ((matched_suffix hne hi).sublist.map (rangeOf (fold f text) needle.length))
  replace htwo := hdisjoint.sublist htwo
  rw [occurrences_some hne hj, List.map_cons, List.map_cons, List.pairwise_cons] at htwo
  have hle := htwo.1 _ List.mem_cons_self
  obtain ⟨at', hi'⟩ := hi.found
  obtain ⟨m₁, n₁, _, hn₁, _, _, _, hend₁, hrange₁⟩ := match_range hne hi'
  obtain ⟨m₂, n₂, hmn₂, hn₂, hstart₂, _, _, _, hrange₂⟩ := match_range hne hj
  have hij := (indexOf_some hj).1
  have hn₁' : n ≤ n₁ := by
    by_contra hlt
    have hmono := offset_mono (pieces f text) (show n₁ + 1 ≤ n by omega)
    omega
  have hn₂' : m₂ ≤ n := by
    by_contra hlt
    have hmono := offset_mono (pieces f text) (show n + 1 ≤ m₂ by omega)
    omega
  rw [hrange₁, hrange₂] at hle
  have hlt := offset_succ_lt (chars_ne_nil text) (show m₂ < (chars text).length by omega)
  have hmono := offset_mono (chars text) (show m₂ + 1 ≤ n₁ + 1 by omega)
  simp only at hle
  omega

theorem mem_findRanges {text needle : List ℕ} {r : ℕ × ℕ} (h : r ∈ findRanges f text needle) :
    needle ≠ [] ∧ ∃ start i, indexOf (fold f text).folded needle start = some i ∧
      r = rangeOf (fold f text) needle.length i := by
  rw [findRanges] at h
  split_ifs at h with hne
  · exact absurd h List.not_mem_nil
  · obtain ⟨i, hi, rfl⟩ := List.mem_map.mp h
    obtain ⟨_, start, hfound⟩ := mem_occurrences hne hi
    exact ⟨hne, start, i, hfound, rfl⟩

theorem findRanges_ne_nil (text needle : List ℕ) :
    findRanges f text needle ≠ [] ↔ matchesText f text needle = true := by
  rw [findRanges, matchesText]
  split_ifs with hne
  · simp [hne]
  · rw [decide_eq_true hne, Bool.true_and, ne_eq, List.map_eq_nil_iff]
    cases h : indexOf (fold f text).folded needle 0 with
    | none => simp [occurrences_none h]
    | some i => simp [occurrences_some hne h]

theorem offset_chars_lt {text : List ℕ} {m n : ℕ} (hmn : m ≤ n) (hn : n < (chars text).length) :
    offset (chars text) m < offset (chars text) (n + 1) :=
  (offset_succ_lt (chars_ne_nil text) (by omega)).trans_le (offset_mono _ (Nat.succ_le_succ hmn))

theorem offset_chars_le (text : List ℕ) (n : ℕ) : offset (chars text) n ≤ text.length := by
  conv_rhs => rw [← chars_flatten text]
  exact offset_le_length _ n

theorem wellFormed_of_not_cut {text needle : List ℕ} (hcut : ¬ Cut f text needle) :
    WellFormed f text needle where
  nonempty r hr := by
    obtain ⟨hne, start, i, hi, rfl⟩ := mem_findRanges hr
    obtain ⟨m, n, hmn, hn, _, _, _, _, hrange⟩ := match_range hne hi
    rw [hrange]
    exact offset_chars_lt hmn hn
  within r hr := by
    obtain ⟨hne, start, i, hi, rfl⟩ := mem_findRanges hr
    obtain ⟨m, n, _, _, _, _, _, _, hrange⟩ := match_range hne hi
    rw [hrange]
    exact offset_chars_le text (n + 1)
  disjoint := by
    rw [findRanges]
    split_ifs with hne
    · exact List.Pairwise.nil
    · exact ranges_disjoint hne hcut 0 fun i hi => .first hi
  found := findRanges_ne_nil text needle
  contains r hr := by
    obtain ⟨hne, start, i, hi, rfl⟩ := mem_findRanges hr
    obtain ⟨m, n, hmn, _, hlo, _, _, hhi, hrange⟩ := match_range hne hi
    rw [hrange]
    exact contains_match hmn hi hlo hhi

/-- The highlights are well-formed unless two matches meet within what one character folds to. -/
theorem wellFormed_iff (f : Folding) (text needle : List ℕ) :
    WellFormed f text needle ↔ ¬ Cut f text needle :=
  ⟨fun h hcut => not_disjoint_of_cut hcut h.disjoint, wellFormed_of_not_cut⟩

/-- A folding that takes a syllable apart into its letters. -/
def syllables : Folding where
  foldChar
    | [0xAC00] => [0x1100, 0x1161]
    | [u] => [asciiLower u]
    | char => char
  ascii u hu := by
    have hne : u ≠ 0xAC00 := by omega
    simp

/-- Three times the syllable, searched for with its letters the other way round: each of the
two ranges has the second syllable. -/
theorem highlights_overlap :
    fold syllables [0x1161, 0x1100] = ⟨[0x1161, 0x1100], some [0, 1], some [1, 2]⟩ ∧
      findRanges syllables [0xAC00, 0xAC00, 0xAC00] [0x1161, 0x1100] = [(0, 2), (1, 3)] ∧
      ¬ WellFormed syllables [0xAC00, 0xAC00, 0xAC00] [0x1161, 0x1100] := by
  have hfold : fold syllables [0xAC00, 0xAC00, 0xAC00] =
      ⟨[0x1100, 0x1161, 0x1100, 0x1161, 0x1100, 0x1161],
      some [0, 0, 1, 1, 2, 2], some [1, 1, 2, 2, 3, 3]⟩ := by decide +kernel
  have hranges : findRanges syllables [0xAC00, 0xAC00, 0xAC00] [0x1161, 0x1100] =
      [(0, 2), (1, 3)] := by
    rw [findRanges, if_neg (by decide), hfold,
      occurrences_some (i := 1) (by decide) (by decide +kernel),
      occurrences_some (i := 3) (by decide) (by decide +kernel),
      occurrences_none (by decide +kernel)]
    rfl
  refine ⟨by decide +kernel, hranges, fun h => ?_⟩
  have hdisjoint := h.disjoint
  rw [hranges] at hdisjoint
  exact absurd hdisjoint (by decide)

end SendSelf.Search

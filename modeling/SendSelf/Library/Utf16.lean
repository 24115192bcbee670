import Mathlib.Data.List.DropRight
import SendSelf.Library.Framing

/-!
# Texts of UTF-16 code units

A text need not be well formed: a surrogate may stand without its partner. An encoder writes it as
bytes all the same, with the replacement character where such a surrogate was. So two texts have
the same bytes when they are the same after this replacement. It goes on across a unit that is no
surrogate, which makes it go through joined fields one by one, and it leaves a text as it is unless
the replacement character shows up in it. Trimming takes the white space off both ends.
-/
namespace SendSelf.Utf16
open Framing

def isHigh (c : UInt16) : Bool := decide (0xD800 ≤ c ∧ c < 0xDC00)

def isLow (c : UInt16) : Bool := decide (0xDC00 ≤ c ∧ c < 0xE000)

def isSurrogate (c : UInt16) : Bool := isHigh c || isLow c

def replacement : UInt16 := 0xFFFD

/-- The replacement character for each surrogate that has no partner. -/
def toWellFormed : List UInt16 → List UInt16
  | [] => []
  | [c] => [if isSurrogate c then replacement else c]
  | c :: d :: text =>
      if isHigh c && isLow d then c :: d :: toWellFormed text
      else (if isSurrogate c then replacement else c) :: toWellFormed (d :: text)

theorem not_isHigh {c : UInt16} (h : isSurrogate c = false) : isHigh c = false :=
  (Bool.or_eq_false_iff.mp h).1

theorem not_isLow {c : UInt16} (h : isSurrogate c = false) : isLow c = false :=
  (Bool.or_eq_false_iff.mp h).2

theorem length_toWellFormed (text : List UInt16) :
    (toWellFormed text).length = text.length := by
  induction text using toWellFormed.induct with
  | case1 => rfl
  | case2 c => rfl
  | case3 c d text hpair ih => simp only [toWellFormed, hpair, ↓reduceIte, List.length_cons, ih]
  | case4 c d text hpair ih =>
    simp only [toWellFormed, if_neg hpair, List.length_cons] at ih ⊢
    rw [ih]

/-- A unit that is no surrogate takes part in no pair. -/
theorem toWellFormed_cons {c : UInt16} (hc : isSurrogate c = false) (text : List UInt16) :
    toWellFormed (c :: text) = c :: toWellFormed text := by
  cases text with
  | nil => simp [toWellFormed, hc]
  | cons d text => simp [toWellFormed, hc, not_isHigh hc]

theorem toWellFormed_append_cons (x : List UInt16) {c : UInt16} (hc : isSurrogate c = false)
    (y : List UInt16) :
    toWellFormed (x ++ c :: y) = toWellFormed x ++ c :: toWellFormed y := by
  induction x using toWellFormed.induct with
  | case1 => exact toWellFormed_cons hc y
  | case2 d =>
    have hpair : (isHigh d && isLow c) = false := by rw [not_isLow hc, Bool.and_false]
    simp [toWellFormed, hpair, toWellFormed_cons hc]
  | case3 d e x hpair ih =>
    simp only [List.cons_append, toWellFormed, hpair, ↓reduceIte, ih]
  | case4 d e x hpair ih =>
    simp only [List.cons_append, toWellFormed, if_neg hpair] at ih ⊢
    rw [ih]

/-- The fields of a joined text are encoded one by one. -/
theorem toWellFormed_join {c : UInt16} (hc : isSurrogate c = false) (ps : List (List UInt16)) :
    toWellFormed (join c ps) = join c (ps.map toWellFormed) := by
  induction ps with
  | nil => rfl
  | cons p ps ih =>
    by_cases hps : ps = []
    · subst hps
      simp [join]
    · have hmap : ps.map toWellFormed ≠ [] := by simpa using hps
      rw [join_cons hps, toWellFormed_append_cons p hc, ih, List.map_cons, join_cons hmap]

theorem mem_toWellFormed {c : UInt16} (hc : isSurrogate c = false) (hr : c ≠ replacement)
    {text : List UInt16} : c ∈ toWellFormed text ↔ c ∈ text := by
  have hunit : ∀ d, c = (if isSurrogate d then replacement else d) ↔ c = d := by
    intro d
    split
    · next hd =>
      refine ⟨fun h => absurd h hr, fun h => ?_⟩
      rw [h, hd] at hc
      cases hc
    · rfl
  induction text using toWellFormed.induct with
  | case1 => rfl
  | case2 d => simp only [toWellFormed, List.mem_singleton, hunit]
  | case3 d e text hpair ih => simp only [toWellFormed, hpair, ↓reduceIte, List.mem_cons, ih]
  | case4 d e text hpair ih =>
    rw [toWellFormed, if_neg hpair, List.mem_cons, hunit]
    exact (or_congr_right ih).trans List.mem_cons.symm

/-- What a unit is replaced by can be seen. -/
theorem toWellFormed_eq_self {text : List UInt16} (h : replacement ∉ toWellFormed text) :
    toWellFormed text = text := by
  induction text using toWellFormed.induct with
  | case1 => rfl
  | case2 c =>
    rw [toWellFormed] at h ⊢
    split at h
    · exact absurd List.mem_cons_self h
    · next hc => rw [if_neg hc]
  | case3 c d text hpair ih =>
    rw [toWellFormed, if_pos hpair] at h ⊢
    rw [ih fun hm => h (List.mem_cons_of_mem _ (List.mem_cons_of_mem _ hm))]
  | case4 c d text hpair ih =>
    rw [toWellFormed, if_neg hpair] at h ⊢
    rw [ih fun hm => h (List.mem_cons_of_mem _ hm)]
    split at h
    · exact absurd List.mem_cons_self h
    · next hc => rw [if_neg hc]

/-- A text with neither surrogates nor the replacement character. -/
def Plain (text : List UInt16) : Prop := ∀ c ∈ text, isSurrogate c = false ∧ c ≠ replacement

theorem Plain.toWellFormed {text : List UInt16} (h : Plain text) : toWellFormed text = text := by
  induction text with
  | nil => rfl
  | cons c text ih =>
    obtain ⟨hc, htext⟩ := List.forall_mem_cons.mp h
    rw [toWellFormed_cons hc.1, ih htext]

/-- No other text has the bytes of a plain one. -/
theorem Plain.eq_of_toWellFormed {x y : List UInt16} (hx : Plain x)
    (h : Utf16.toWellFormed x = Utf16.toWellFormed y) : x = y := by
  rw [hx.toWellFormed] at h
  have hr : replacement ∉ Utf16.toWellFormed y := fun hm => (hx replacement (h ▸ hm)).2 rfl
  rw [h, toWellFormed_eq_self hr]

theorem Plain.append {x y : List UInt16} (hx : Plain x) (hy : Plain y) : Plain (x ++ y) :=
  List.forall_mem_append.mpr ⟨hx, hy⟩

theorem Plain.join {c : UInt16} (hc : isSurrogate c = false ∧ c ≠ replacement)
    {ps : List (List UInt16)} (h : ∀ p ∈ ps, Plain p) : Plain (join c ps) := by
  induction ps with
  | nil => exact fun _ hm => absurd hm List.not_mem_nil
  | cons p ps ih =>
    obtain ⟨hp, hps⟩ := List.forall_mem_cons.mp h
    by_cases hnil : ps = []
    · subst hnil
      simpa [Framing.join] using hp
    · rw [join_cons hnil]
      exact hp.append (List.forall_mem_cons.mpr ⟨hc, ih hps⟩)

/-- White space and the ends of lines. -/
def isWhiteSpace (c : UInt16) : Bool :=
  decide (9 ≤ c ∧ c ≤ 13 ∨ 0x2000 ≤ c ∧ c ≤ 0x200A) ||
    c ∈ ([0x20, 0xA0, 0x1680, 0x2028, 0x2029, 0x202F, 0x205F, 0x3000, 0xFEFF] : List UInt16)

def trim (text : List UInt16) : List UInt16 :=
  (text.dropWhile isWhiteSpace).rdropWhile isWhiteSpace

end SendSelf.Utf16

import Mathlib.Data.Nat.Notation
import Mathlib.Tactic.Common

/-!
# Percent-encoded text

A character that a text cannot hold as it is stands there as the bytes of its UTF-8 form, each
written as `%` and two hexadecimal digits. Reading goes byte by byte: between characters nothing
is awaited, and within one it is known how many bytes are still to come, what they have given so
far and what they must give at least, since a character has one form only.
-/
namespace SendSelf.Percent

/-- The bytes of a character in UTF-8. -/
def bytes (c : Char) : List ℕ :=
  if c.toNat < 0x80 then [c.toNat]
  else if c.toNat < 0x800 then [0xC0 + c.toNat / 64, 0x80 + c.toNat % 64]
  else if c.toNat < 0x10000 then
    [0xE0 + c.toNat / 4096, 0x80 + c.toNat / 64 % 64, 0x80 + c.toNat % 64]
  else [0xF0 + c.toNat / 262144, 0x80 + c.toNat / 4096 % 64, 0x80 + c.toNat / 64 % 64,
    0x80 + c.toNat % 64]

def hexDigits : List Char := "0123456789ABCDEF".toList

def hexDigit (n : ℕ) : Char := hexDigits.getD n '0'

def hexValue (c : Char) : Option ℕ := hexDigits.findIdx? (· = c.toUpper)

def escape (b : ℕ) : List Char := ['%', hexDigit (b / 16), hexDigit (b % 16)]

variable (kept : Char → Bool)

def encodeChar (c : Char) : List Char := if kept c then [c] else (bytes c).flatMap escape

def encode (text : List Char) : List Char := text.flatMap (encodeChar kept)

/-- Within a character: the bytes still awaited, the value of those read, and what it must be at
least in the end. -/
structure Awaited where
  more : ℕ
  value : ℕ
  least : ℕ

/-- One byte: the character that it ends, if it ends one, and what is awaited after it. -/
def step : Option Awaited → ℕ → Option (List Char × Option Awaited)
  | none, b =>
      if b < 0x80 then some ([Char.ofNat b], none)
      else if b < 0xC0 then none
      else if b < 0xE0 then some ([], some ⟨1, b - 0xC0, 0x80⟩)
      else if b < 0xF0 then some ([], some ⟨2, b - 0xE0, 0x800⟩)
      else if b < 0xF8 then some ([], some ⟨3, b - 0xF0, 0x10000⟩)
      else none
  | some a, b =>
      let value := a.value * 64 + (b - 0x80)
      if b < 0x80 ∨ 0xC0 ≤ b then none
      else if 1 < a.more then some ([], some ⟨a.more - 1, value, a.least⟩)
      else if a.least ≤ value ∧ value.isValidChar then some ([Char.ofNat value], none)
      else none

def decodeFrom : Option Awaited → List Char → Option (List Char)
  | none, [] => some []
  | some _, [] => none
  | awaited, '%' :: x :: y :: text => do
      let high ← hexValue x
      let low ← hexValue y
      let (read, awaited) ← step awaited (16 * high + low)
      let rest ← decodeFrom awaited text
      pure (read ++ rest)
  | awaited, c :: text => if awaited.isSome ∨
      c = '%' then none else (decodeFrom none text).map (c :: ·)

def decode (text : List Char) : Option (List Char) := decodeFrom none text

theorem hexValue_hexDigit {n : ℕ} (h : n < 16) : hexValue (hexDigit n) = some n := by
  revert n
  decide

theorem decodeFrom_escape {b : ℕ} (h : b < 256) (awaited : Option Awaited) (text : List Char) :
    decodeFrom awaited (escape b ++ text) =
      (step awaited b).bind fun p => (decodeFrom p.2 text).map (p.1 ++ ·) := by
  rw [escape, List.cons_append, List.cons_append, List.cons_append, List.nil_append, decodeFrom,
    hexValue_hexDigit (by omega), hexValue_hexDigit (by omega)]
  change (step awaited (16 * (b / 16) + b % 16) >>= _) = _
  rw [Nat.div_add_mod]
  cases step awaited b with
  | none => rfl
  | some p =>
    obtain ⟨read, awaited⟩ := p
    change (decodeFrom awaited text >>= fun rest => pure (read ++ rest)) = _
    rw [Option.bind_some]
    cases decodeFrom awaited text with
    | none => rfl
    | some rest => rfl

/-- A byte that leaves a character unfinished. -/
theorem decodeFrom_within {b : ℕ} {awaited next : Option Awaited} (h : b < 256)
    (hs : step awaited b = some ([], next))
    (text : List Char) : decodeFrom awaited (escape b ++ text) = decodeFrom next text := by
  rw [decodeFrom_escape h, hs, Option.bind_some]
  exact Option.map_id'

/-- A byte that ends a character. -/
theorem decodeFrom_last {b : ℕ} {awaited : Option Awaited} {c : Char} (h : b < 256)
    (hs : step awaited b = some ([c], none)) (text : List Char) :
    decodeFrom awaited (escape b ++ text) = (decodeFrom none text).map (c :: ·) := by
  rw [decodeFrom_escape h, hs, Option.bind_some]
  rfl

theorem step_start {b : ℕ} (h : b < 0x80) : step none b = some ([Char.ofNat b], none) := by
  rw [step, if_pos h]

theorem step_more {a : Awaited} {b : ℕ} (hl : 0x80 ≤ b) (hu : b < 0xC0) (hm : 1 < a.more) :
    step (some a) b = some ([], some ⟨a.more - 1, a.value * 64 + (b - 0x80), a.least⟩) := by
  rw [step, if_neg (by omega), if_pos hm]

theorem step_last {a : Awaited} {b : ℕ} {c : Char} (hl : 0x80 ≤ b) (hu : b < 0xC0) (hm : a.more = 1)
    (hv : a.value * 64 + (b - 0x80) = c.toNat) (hc : a.least ≤ c.toNat) :
    step (some a) b = some ([c], none) := by
  rw [step, if_neg (by omega), if_neg (by omega), hv, if_pos ⟨hc, c.valid⟩, Char.ofNat_toNat]

theorem toNat_lt (c : Char) : c.toNat < 0x110000 := by
  have h : c.toNat.isValidChar := c.valid
  unfold Nat.isValidChar at h
  omega

/-- A character's own form, with the smallest number of bytes that it fits in, is read as the
character. -/
theorem decodeFrom_bytes (c : Char) (text : List Char) :
    decodeFrom none ((bytes c).flatMap escape ++ text) = (decodeFrom none text).map (c :: ·) := by
  have hn := toNat_lt c
  unfold bytes
  split_ifs with h1 h2 h3
  · rw [List.flatMap_singleton]
    exact decodeFrom_last (by omega) (by rw [step_start h1, Char.ofNat_toNat]) text
  · have hs : step none (0xC0 + c.toNat / 64) = some ([], some ⟨1, c.toNat / 64, 0x80⟩) := by
      rw [step, if_neg (by omega), if_neg (by omega), if_pos (by omega), Nat.add_sub_cancel_left]
    simp only [List.flatMap_cons, List.flatMap_nil, List.append_nil, List.append_assoc]
    rw [decodeFrom_within (by omega) hs]
    refine decodeFrom_last (by omega) (step_last (by omega) (by omega) rfl ?_ ?_) text
    · change c.toNat / 64 * 64 + (0x80 + c.toNat % 64 - 0x80) = c.toNat
      omega
    · change 0x80 ≤ c.toNat
      omega
  · have hs : step none (0xE0 + c.toNat / 4096) = some ([], some ⟨2, c.toNat / 4096, 0x800⟩) := by
      rw [step, if_neg (by omega), if_neg (by omega), if_neg (by omega), if_pos (by omega),
        Nat.add_sub_cancel_left]
    simp only [List.flatMap_cons, List.flatMap_nil, List.append_nil, List.append_assoc]
    rw [decodeFrom_within (by omega) hs,
      decodeFrom_within (by omega) (step_more (by omega) (by omega) (Nat.one_lt_succ_succ _))]
    refine decodeFrom_last (by omega) (step_last (by omega) (by omega) rfl ?_ ?_) text
    · change (c.toNat / 4096 * 64 + (0x80 + c.toNat / 64 % 64 - 0x80)) * 64 +
        (0x80 + c.toNat % 64 - 0x80) = c.toNat
      omega
    · change 0x800 ≤ c.toNat
      omega
  · have hs : step none (0xF0 + c.toNat / 262144) =
        some ([], some ⟨3, c.toNat / 262144, 0x10000⟩) := by
      rw [step, if_neg (by omega), if_neg (by omega), if_neg (by omega), if_neg (by omega),
        if_pos (by omega),
        Nat.add_sub_cancel_left]
    simp only [List.flatMap_cons, List.flatMap_nil, List.append_nil, List.append_assoc]
    rw [decodeFrom_within (by omega) hs,
      decodeFrom_within (by omega) (step_more (by omega) (by omega) (Nat.one_lt_succ_succ _)),
      decodeFrom_within (by omega) (step_more (by omega) (by omega) (Nat.one_lt_succ_succ _))]
    refine decodeFrom_last (by omega) (step_last (by omega) (by omega) rfl ?_ ?_) text
    · change ((c.toNat / 262144 * 64 + (0x80 + c.toNat / 4096 % 64 - 0x80)) * 64 +
        (0x80 + c.toNat / 64 % 64 - 0x80)) * 64 + (0x80 + c.toNat % 64 - 0x80) = c.toNat
      omega
    · change 0x10000 ≤ c.toNat
      omega

theorem decodeFrom_plain {c : Char} (h : c ≠ '%') (text : List Char) :
    decodeFrom none (c :: text) = (decodeFrom none text).map (c :: ·) := by
  rw [decodeFrom, if_neg (by simp [h])]
  intro x y rest hc
  exact absurd hc h

variable {kept}

theorem decodeFrom_encode (hk : kept '%' = false) (s text : List Char) :
    decodeFrom none (encode kept s ++ text) = (decodeFrom none text).map (s ++ ·) := by
  induction s with
  | nil => exact Option.map_id'.symm
  | cons c s ih =>
    have hc : decodeFrom none (encodeChar kept c ++ (encode kept s ++ text)) =
        (decodeFrom none (encode kept s ++ text)).map (c :: ·) := by
      unfold encodeChar
      split_ifs with h
      · refine decodeFrom_plain ?_ _
        rintro rfl
        exact Bool.false_ne_true (hk.symm.trans h)
      · exact decodeFrom_bytes c _
    rw [encode, List.flatMap_cons, List.append_assoc]
    rw [encode] at hc ih
    rw [hc, ih, Option.map_map]
    rfl

theorem decode_encode (hk : kept '%' = false) (s : List Char) :
    decode (encode kept s) = some s := by
  have h := decodeFrom_encode hk s []
  rwa [List.append_nil, decodeFrom, Option.map_some, List.append_nil] at h

/-- A text without escapes is read as it is. -/
theorem decode_plain {s : List Char} (h : '%' ∉ s) : decode s = some s := by
  unfold decode
  induction s with
  | nil => rfl
  | cons c s ih =>
    rw [decodeFrom_plain (List.ne_of_not_mem_cons h).symm, ih (List.not_mem_of_not_mem_cons h),
      Option.map_some]

theorem encode_eq_self {s : List Char} (h : ∀ c ∈ s, kept c) : encode kept s = s := by
  induction s with
  | nil => rfl
  | cons c s ih =>
    rw [encode, List.flatMap_cons, encodeChar, if_pos (h c List.mem_cons_self)]
    exact congrArg (c :: ·) (ih fun d hd => h d (List.mem_cons_of_mem c hd))

theorem hexDigit_mem {n : ℕ} (h : n < 16) : hexDigit n ∈ hexDigits := by
  revert n
  decide

theorem lt_of_mem_bytes {c : Char} {b : ℕ} (h : b ∈ bytes c) : b < 256 := by
  have hn := toNat_lt c
  unfold bytes at h
  split_ifs at h with h1 h2 h3
  · simp only [List.mem_cons, List.not_mem_nil, or_false] at h
    omega
  · simp only [List.mem_cons, List.not_mem_nil, or_false] at h
    omega
  · simp only [List.mem_cons, List.not_mem_nil, or_false] at h
    omega
  · simp only [List.mem_cons, List.not_mem_nil, or_false] at h
    omega

/-- An encoded text has the characters that are kept, and those of escapes. -/
theorem mem_encode {s : List Char} {c : Char} (h : c ∈ encode kept s) :
    kept c ∨ c = '%' ∨ c ∈ hexDigits := by
  obtain ⟨d, -, hd⟩ := List.mem_flatMap.mp h
  unfold encodeChar at hd
  split_ifs at hd with hk
  · rw [List.mem_singleton.mp hd]
    exact Or.inl hk
  · obtain ⟨b, hb, hc⟩ := List.mem_flatMap.mp hd
    have hlt := lt_of_mem_bytes hb
    simp only [escape, List.mem_cons, List.not_mem_nil, or_false] at hc
    rcases hc with rfl | rfl | rfl
    · exact Or.inr (Or.inl rfl)
    · exact Or.inr (Or.inr (hexDigit_mem (by omega)))
    · exact Or.inr (Or.inr (hexDigit_mem (by omega)))

theorem encode_ne_nil {s : List Char} (h : s ≠ []) : encode kept s ≠ [] := by
  cases s with
  | nil => exact absurd rfl h
  | cons c s =>
    rw [encode, List.flatMap_cons]
    refine List.append_ne_nil_of_left_ne_nil ?_ _
    unfold encodeChar bytes
    split_ifs <;> exact List.cons_ne_nil _ _

end SendSelf.Percent

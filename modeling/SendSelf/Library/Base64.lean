import Mathlib.Data.List.DropRight
import Mathlib.Data.UInt

/-!
# Padded base64

Three bytes are four digits of six bits each. What is left over at the end has two or three
digits, and padding makes a multiple of four of the text. The padding says nothing that the
number of digits does not say.
-/
namespace SendSelf.Base64

/-- The six-bit digits of the bytes. -/
def sextets : List UInt8 → List ℕ
  | [] => []
  | [a] => [a.toNat / 4, a.toNat % 4 * 16]
  | [a, b] => [a.toNat / 4, a.toNat % 4 * 16 + b.toNat / 16, b.toNat % 16 * 4]
  | a :: b :: c :: bytes =>
      a.toNat / 4 :: (a.toNat % 4 * 16 + b.toNat / 16) :: (b.toNat % 16 * 4 + c.toNat / 64) ::
        c.toNat % 64 ::
        sextets bytes

/-- The bytes of such digits. -/
def octets : List ℕ → Option (List UInt8)
  | [] => some []
  | [x, y] => some [.ofNat (x * 4 + y / 16)]
  | [x, y, z] => some [.ofNat (x * 4 + y / 16), .ofNat (y % 16 * 16 + z / 4)]
  | x :: y :: z :: w :: digits => (octets digits).map fun bytes =>
      .ofNat (x * 4 + y / 16) :: .ofNat (y % 16 * 16 + z / 4) :: .ofNat (z % 4 * 64 + w) :: bytes
  | [_] => none

def alphabet : List Char :=
  "ABCDEFGHIJKLMNOPQRSTUVWXYZabcdefghijklmnopqrstuvwxyz0123456789+/".toList

def digit (n : ℕ) : Char := alphabet.getD n 'A'

def value (c : Char) : Option ℕ := alphabet.findIdx? (· = c)

def pad : Char := '='

/-- So many padding characters follow the digits of so many bytes. -/
def padding (n : ℕ) : List Char := List.replicate ((3 - n % 3) % 3) pad

def encode (bytes : List UInt8) : List Char := (sextets bytes).map digit ++ padding bytes.length

def unpadded (text : List Char) : List Char := text.rdropWhile (· = pad)

def decode (text : List Char) : Option (List UInt8) :=
  if text.length % 4 = 0 ∧
  text.length ≤ (unpadded text).length + 2 then (unpadded text).mapM value >>= octets else none

theorem sextets_lt {bytes : List UInt8} {n : ℕ} (h : n ∈ sextets bytes) : n < 64 := by
  fun_induction sextets bytes with
  | case1 => cases h
  | case2 a =>
    have ha := a.toNat_lt
    simp only [List.mem_cons, List.not_mem_nil, or_false] at h
    omega
  | case3 a b =>
    have ha := a.toNat_lt
    have hb := b.toNat_lt
    simp only [List.mem_cons, List.not_mem_nil, or_false] at h
    omega
  | case4 a b c bytes ih =>
    have ha := a.toNat_lt
    have hb := b.toNat_lt
    have hc := c.toNat_lt
    simp only [List.mem_cons] at h
    rcases h with h | h | h | h | h
    · omega
    · omega
    · omega
    · omega
    · exact ih h

theorem octets_sextets (bytes : List UInt8) : octets (sextets bytes) = some bytes := by
  have hbyte : ∀ (a : UInt8) {n : ℕ}, n = a.toNat → UInt8.ofNat n = a := by
    intro a n hn
    rw [hn, UInt8.ofNat_toNat]
  fun_induction sextets bytes with
  | case1 => rfl
  | case2 a => rw [octets, hbyte a (by omega)]
  | case3 a b =>
    have hb := b.toNat_lt
    rw [octets, hbyte a (by omega), hbyte b (by omega)]
  | case4 a b c bytes ih =>
    have hb := b.toNat_lt
    have hc := c.toNat_lt
    rw [octets, ih, Option.map_some, hbyte a (by omega), hbyte b (by omega), hbyte c (by omega)]

/-- Four digits for three bytes, rounded up. -/
theorem length_sextets (bytes : List UInt8) :
    (sextets bytes).length = (4 * bytes.length + 2) / 3 := by
  fun_induction sextets bytes with
  | case1 => rfl
  | case2 a =>
    simp only [List.length_cons, List.length_nil, Nat.reduceAdd, Nat.reduceMul, Nat.reduceDiv]
  | case3 a b =>
    simp only [List.length_cons, List.length_nil, Nat.reduceAdd, Nat.reduceMul, Nat.reduceDiv]
  | case4 a b c bytes ih =>
    simp only [List.length_cons, ih]
    omega

theorem value_digit {n : ℕ} (h : n < 64) : value (digit n) = some n := by
  revert n
  decide

theorem digit_mem {n : ℕ} (h : n < 64) : digit n ∈ alphabet := by
  revert n
  decide

theorem pad_not_mem_alphabet : pad ∉ alphabet := by decide

theorem mapM_value {digits : List ℕ} (h : ∀ n ∈ digits, n < 64) :
    (digits.map digit).mapM value = some digits := by
  induction digits with
  | nil => rfl
  | cons n digits ih =>
    rw [List.map_cons, List.mapM_cons, value_digit (h n List.mem_cons_self),
      ih fun m hm => h m (List.mem_cons_of_mem n hm)]
    rfl

/-- Padding makes a multiple of four of so many digits. -/
theorem padding_length (n : ℕ) : (4 * n + 2) / 3 % 4 = 0 ∧ (3 - n % 3) % 3 = 0 ∨
    (4 * n + 2) / 3 % 4 ≠ 0 ∧ (3 - n % 3) % 3 = 4 - (4 * n + 2) / 3 % 4 := by
  have hn : n % 3 = 0 ∨ n % 3 = 1 ∨ n % 3 = 2 := by omega
  rcases hn with h | h | h
  · left
    rw [h]
    omega
  · right
    rw [h]
    omega
  · right
    rw [h]
    omega

theorem padding_eq_replicate (bytes : List UInt8) :
    (sextets bytes).length % 4 = 0 ∧ padding bytes.length = [] ∨
    (sextets bytes).length % 4 ≠ 0 ∧
    padding bytes.length = List.replicate (4 - (sextets bytes).length % 4) pad := by
  rw [length_sextets, padding]
  rcases padding_length bytes.length with ⟨h, hpad⟩ | ⟨h, hpad⟩
  · exact Or.inl ⟨h, by rw [hpad, List.replicate_zero]⟩
  · exact Or.inr ⟨h, by rw [hpad]⟩

/-- Padding after a text that does not end in padding. -/
theorem unpadded_append {text : List Char} (n : ℕ) (h : ∀ c ∈ text, c ≠ pad) :
    unpadded (text ++ List.replicate n pad) = text := by
  induction n with
  | zero =>
    rw [List.replicate_zero, List.append_nil, unpadded, List.rdropWhile_eq_self_iff]
    intro hne hpad
    exact h _ (List.getLast_mem hne) (of_decide_eq_true hpad)
  | succ n ih =>
    rw [List.replicate_succ', ← List.append_assoc, unpadded,
      List.rdropWhile_concat_pos (fun c => decide (c = pad)) _ pad (decide_eq_true rfl)]
    exact ih

theorem ne_pad_of_mem {bytes : List UInt8} {c : Char} (h : c ∈ (sextets bytes).map digit) :
    c ≠ pad := by
  obtain ⟨n, hn, rfl⟩ := List.mem_map.mp h
  exact fun he => pad_not_mem_alphabet (he ▸ digit_mem (sextets_lt hn))

theorem unpadded_encode (bytes : List UInt8) :
    unpadded (encode bytes) = (sextets bytes).map digit :=
  unpadded_append _ fun _ => ne_pad_of_mem

theorem decode_encode (bytes : List UInt8) : decode (encode bytes) = some bytes := by
  have hlen : (encode bytes).length = (sextets bytes).length + (3 - bytes.length % 3) % 3 := by
    rw [encode, padding, List.length_append, List.length_map, List.length_replicate]
  have hwhole : (encode bytes).length % 4 = 0 ∧
      (encode bytes).length ≤ (unpadded (encode bytes)).length + 2 := by
    rw [unpadded_encode, List.length_map, hlen, length_sextets]
    rcases padding_length bytes.length with ⟨h, hpad⟩ | ⟨h, hpad⟩
    · rw [hpad]
      omega
    · rw [hpad]
      omega
  rw [decode, if_pos hwhole, unpadded_encode, mapM_value fun n => sextets_lt]
  exact octets_sextets bytes

end SendSelf.Base64

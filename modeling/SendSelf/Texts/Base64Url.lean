import SendSelf.Library.Base64

/-!
# base64url

How every key, IV and ciphertext travels on the wire: base64 with two of its characters
replaced, and without the padding, which the length brings back.
-/
namespace SendSelf

/-- `btoa`, of a string of character codes below 256. -/
def btoa (binary : List Char) : List Char := Base64.encode (binary.map fun c => .ofNat c.toNat)

/-- `atob`; `none` where it throws. -/
def atob (base64 : List Char) : Option (List Char) :=
  (Base64.decode base64).map fun bytes => bytes.map fun b => .ofNat b.toNat

/-- `text.replace(/c/g, d)`. -/
def replaceAll (c d : Char) (text : List Char) : List Char :=
  text.map fun x => if x = c then d else x

def bufToBase64Url (bytes : List UInt8) : List Char :=
  let binary := bytes.map fun b => Char.ofNat b.toNat
  Base64.unpadded (replaceAll '/' '_' (replaceAll '+' '-' (btoa binary)))

def base64UrlToBuf (value : List Char) : Option (List UInt8) :=
  let padding :=
    if value.length % 4 = 0 then [] else List.replicate (4 - value.length % 4) Base64.pad
  let base64 := replaceAll '_' '/' (replaceAll '-' '+' value) ++ padding
  (atob base64).map fun binary => binary.map fun c => .ofNat c.toNat

/-- `A-Z`, `a-z`, `0-9`, `-` and `_`. -/
def UrlSafe (c : Char) : Prop := c.isAlphanum = true ∨ c = '-' ∨ c = '_'

instance (c : Char) : Decidable (UrlSafe c) :=
  inferInstanceAs (Decidable (c.isAlphanum = true ∨ c = '-' ∨ c = '_'))

theorem code_of_char {n : ℕ} (h : n < 256) : (Char.ofNat n).toNat = n := by
  revert n
  decide +kernel

/-- A byte as a character code. -/
theorem byte_of_code (b : UInt8) : UInt8.ofNat (Char.ofNat b.toNat).toNat = b := by
  rw [code_of_char b.toNat_lt, UInt8.ofNat_toNat]

theorem bytes_of_codes (bytes : List UInt8) :
    (bytes.map fun b => Char.ofNat b.toNat).map (fun c => UInt8.ofNat c.toNat) = bytes := by
  rw [List.map_map]
  exact (List.map_congr_left fun b _ => byte_of_code b).trans (List.map_id bytes)

/-- A digit of base64url. -/
def urlDigit (n : ℕ) : Char :=
  let c := Base64.digit n
  let c := if c = '+' then '-' else c
  if c = '/' then '_' else c

theorem urlSafe_urlDigit {n : ℕ} (h : n < 64) : UrlSafe (urlDigit n) := by
  revert n
  decide +kernel

theorem urlDigit_ne_pad {n : ℕ} (h : n < 64) : urlDigit n ≠ Base64.pad := by
  revert n
  decide +kernel

/-- The replacements are undone. -/
theorem digit_of_urlDigit {n : ℕ} (h : n < 64) :
    (let c := if urlDigit n = '-' then '+' else urlDigit n
     if c = '_' then '/' else c) = Base64.digit n := by
  revert n
  decide +kernel

theorem replaceAll_pad {c d : Char} (h : c ≠ Base64.pad) (n : ℕ) :
    replaceAll c d (List.replicate n Base64.pad) = List.replicate n Base64.pad := by
  rw [replaceAll, List.map_replicate, if_neg h.symm]

theorem bufToBase64Url_eq (bytes : List UInt8) :
    bufToBase64Url bytes = (Base64.sextets bytes).map urlDigit := by
  unfold bufToBase64Url btoa
  dsimp only
  rw [bytes_of_codes, Base64.encode, Base64.padding]
  have hreplace : ∀ (digits : List ℕ) (n : ℕ),
      replaceAll '/' '_'
        (replaceAll '+' '-' (digits.map Base64.digit ++ List.replicate n Base64.pad)) =
      digits.map urlDigit ++ List.replicate n Base64.pad := by
    intro digits n
    rw [replaceAll, replaceAll, List.map_append, List.map_append, List.map_map, List.map_map]
    refine congrArg₂ _ rfl ?_
    exact (congrArg _ (replaceAll_pad (by decide) n)).trans (replaceAll_pad (by decide) n)
  rw [hreplace]
  refine Base64.unpadded_append _ fun c hc => ?_
  obtain ⟨n, hn, rfl⟩ := List.mem_map.mp hc
  exact urlDigit_ne_pad (Base64.sextets_lt hn)

theorem base64UrlToBuf_bufToBase64Url (bytes : List UInt8) :
    base64UrlToBuf (bufToBase64Url bytes) = some bytes := by
  have hdigits : replaceAll '_' '/' (replaceAll '-' '+' (bufToBase64Url bytes)) =
      (Base64.sextets bytes).map Base64.digit := by
    rw [bufToBase64Url_eq, replaceAll, replaceAll, List.map_map, List.map_map]
    exact List.map_congr_left fun n hn => digit_of_urlDigit (Base64.sextets_lt hn)
  have hlen : (bufToBase64Url bytes).length = (Base64.sextets bytes).length := by
    rw [bufToBase64Url_eq, List.length_map]
  have hpadded : replaceAll '_' '/' (replaceAll '-' '+' (bufToBase64Url bytes)) ++
      (if (bufToBase64Url bytes).length % 4 = 0 then []
        else List.replicate (4 - (bufToBase64Url bytes).length % 4) Base64.pad) =
          Base64.encode bytes := by
    rw [hdigits, hlen, Base64.encode]
    rcases Base64.padding_eq_replicate bytes with ⟨h, hpad⟩ | ⟨h, hpad⟩
    · rw [if_pos h, hpad]
    · rw [if_neg h, hpad]
  unfold base64UrlToBuf atob
  dsimp only
  rw [hpadded, Base64.decode_encode, Option.map_some, Option.map_some, bytes_of_codes]

/-- Decoding an encoding gives the bytes back; it has the letters, the digits, `-` and `_`
only, and four characters for three bytes, rounded up. -/
theorem base64Url_faithful : (∀ bytes, base64UrlToBuf (bufToBase64Url bytes) = some bytes ∧
      (∀ c ∈ bufToBase64Url bytes, UrlSafe c) ∧ Base64.pad ∉ bufToBase64Url bytes ∧
      (bufToBase64Url bytes).length = (4 * bytes.length + 2) / 3) ∧
      Function.Injective bufToBase64Url := by
  refine ⟨fun bytes => ⟨base64UrlToBuf_bufToBase64Url bytes, ?_, ?_, ?_⟩, fun a b hab => ?_⟩
  · intro c hc
    rw [bufToBase64Url_eq] at hc
    obtain ⟨n, hn, rfl⟩ := List.mem_map.mp hc
    exact urlSafe_urlDigit (Base64.sextets_lt hn)
  · intro hc
    rw [bufToBase64Url_eq] at hc
    obtain ⟨n, hn, hpad⟩ := List.mem_map.mp hc
    exact urlDigit_ne_pad (Base64.sextets_lt hn) hpad
  · rw [bufToBase64Url_eq, List.length_map, Base64.length_sextets]
  · have hback := congrArg base64UrlToBuf hab
    rw [base64UrlToBuf_bufToBase64Url, base64UrlToBuf_bufToBase64Url] at hback
    exact Option.some.inj hback

end SendSelf

import SendSelf.Texts.Base64Url

/-!
# Recovery codes

A code is 32 characters of an alphabet that leaves out what is easily confused, in groups of
four. It is read however it was written down: upper-casing a text, keeping its digits and
letters and putting back what is confused gives the characters that the code was made of.
-/
namespace SendSelf.Recovery

def ALPHABET : List Char := "0123456789ABCDEFGHJKMNPQRSTVWXYZ".toList
def CODE_CHARS : ℕ := 32
def CODE_GROUP : ℕ := 4

/-- Upper-casing of single characters, of which only the ASCII part is fixed here. -/
structure UpperCasing where
  toUpperCase : Char → List Char
  ascii : ∀ c, c.toNat < 128 → toUpperCase c = [c.toUpper]

/-- What `randomBytes(CODE_CHARS)` returns. -/
abbrev CodeBytes := Fin CODE_CHARS → UInt8

def codeChar (b : UInt8) : Char := ALPHABET.getD (b.toNat % ALPHABET.length) '0'

def generateRecoveryCode (bytes : CodeBytes) : List Char :=
  (List.finRange CODE_CHARS).flatMap fun i =>
    (if 0 < i.val ∧ i.val % CODE_GROUP = 0 then ['-'] else []) ++ [codeChar (bytes i)]

/-- `[0-9A-Z]`. -/
def isCodeLetter (c : Char) : Bool := c.isDigit || c.isUpper

/-- Put back what is confused. -/
def unconfused (c : Char) : Char :=
  let c := if c = 'O' then '0' else c
  let c := if c = 'I' ∨ c = 'L' then '1' else c
  if c = 'U' then 'V' else c

variable (u : UpperCasing)

def normalizeRecoveryCode (code : List Char) : List Char :=
  let upper := code.flatMap u.toUpperCase
  let letters := upper.filter isCodeLetter
  replaceAll 'U' 'V' ((replaceAll 'O' '0' letters).map fun c => if c = 'I' ∨
    c = 'L' then '1' else c)

/-- Nothing of the character is a digit or a letter of a code. -/
def IsSeparator (c : Char) : Prop := ∀ x ∈ u.toUpperCase c, isCodeLetter x = false

/-- A character of a code, in either case or as what it is taken for. -/
inductive Written : Char → Char → Prop
  | same {c d : Char} (hd : d.toNat < 128) (h : d.toUpper = c) : Written c d
  | zero {d : Char} (h : d = 'O' ∨ d = 'o') : Written '0' d
  | one {d : Char} (h : d = 'I' ∨ d = 'i' ∨ d = 'L' ∨ d = 'l') : Written '1' d
  | vee {d : Char} (h : d = 'U' ∨ d = 'u') : Written 'V' d

/-- A code as it was written down. -/
inductive Rewritten : List Char → List Char → Prop
  | nil : Rewritten [] []
  | letter {c d : Char} {cs ds : List Char} (hc : c ∈ ALPHABET) (h : Written c d)
      (hrest : Rewritten cs ds) :
      Rewritten (c :: cs) (d :: ds)
  | inserted {d : Char} {cs ds : List Char} (hd : IsSeparator u d) (hrest : Rewritten cs ds) :
      Rewritten cs (d :: ds)
  | removed {c : Char} {cs ds : List Char} (hc : IsSeparator u c) (hrest : Rewritten cs ds) :
      Rewritten (c :: cs) ds

def normalizeChar (c : Char) : List Char := ((u.toUpperCase c).filter isCodeLetter).map unconfused

variable {u}

theorem normalizeRecoveryCode_eq (code : List Char) :
    normalizeRecoveryCode u code = code.flatMap (normalizeChar u) := by
  simp only [normalizeRecoveryCode, replaceAll, List.filter_flatMap, List.map_flatMap, List.map_map]
  rfl

theorem normalizeChar_ascii {c : Char} (h : c.toNat < 128) :
    normalizeChar u c = if isCodeLetter c.toUpper = true then [unconfused c.toUpper] else [] := by
  rw [normalizeChar, u.ascii c h, List.filter_cons, List.filter_nil]
  split_ifs <;> rfl

theorem normalizeChar_separator {c : Char} (h : IsSeparator u c) : normalizeChar u c = [] := by
  rw [normalizeChar, List.filter_eq_nil_iff.mpr fun x hx => by
    rw [h x hx]; exact Bool.false_ne_true, List.map_nil]

/-- Putting back what is confused gives a character of the alphabet. -/
theorem unconfused_mem {c : Char} (h : isCodeLetter c = true) : unconfused c ∈ ALPHABET := by
  have hascii : c.toNat < 128 := by
    rcases (Bool.or_eq_true _ _).mp h with h | h
    · exact lt_of_le_of_lt (Char.isDigit_iff_toNat.mp h).2 (by decide)
    · exact lt_of_le_of_lt (UInt32.le_iff_toNat_le.mp (of_decide_eq_true h).2) (by decide)
  have hall : ∀ n < 128, isCodeLetter (Char.ofNat n) = true →
      unconfused (Char.ofNat n) ∈ ALPHABET := by decide +kernel
  rw [← Char.ofNat_toNat c] at h ⊢
  exact hall c.toNat hascii h

theorem alphabet_fixed : ∀ c ∈ ALPHABET, c.toNat < 128 ∧ c.toUpper = c ∧ isCodeLetter c = true ∧
    unconfused c = c :=
  List.forall_iff_forall_mem.mp (by decide +kernel)

theorem normalizeChar_alphabet {c : Char} (h : c ∈ ALPHABET) : normalizeChar u c = [c] := by
  obtain ⟨hascii, hupper, hletter, hfixed⟩ := alphabet_fixed c h
  rw [normalizeChar_ascii hascii, hupper, if_pos hletter, hfixed]

theorem normalizeChar_hyphen : normalizeChar u '-' = [] := by
  rw [normalizeChar_ascii (by decide)]
  rfl

theorem mem_normalizeChar {c x : Char} (h : x ∈ normalizeChar u c) : x ∈ ALPHABET := by
  obtain ⟨y, hy, rfl⟩ := List.mem_map.mp h
  exact unconfused_mem (List.mem_filter.mp hy).2

/-- However a character is written, it is read the same. -/
theorem normalizeChar_written {c d : Char} (hc : c ∈ ALPHABET) (h : Written c d) :
    normalizeChar u d = [c] := by
  cases h with
  | same hd h =>
    obtain ⟨_, _, hletter, hfixed⟩ := alphabet_fixed c hc
    rw [normalizeChar_ascii hd, h, if_pos hletter, hfixed]
  | zero h =>
    rcases h with rfl | rfl
    · exact normalizeChar_ascii (by decide)
    · exact normalizeChar_ascii (by decide)
  | one h =>
    rcases h with rfl | rfl | rfl | rfl
    · exact normalizeChar_ascii (by decide)
    · exact normalizeChar_ascii (by decide)
    · exact normalizeChar_ascii (by decide)
    · exact normalizeChar_ascii (by decide)
  | vee h =>
    rcases h with rfl | rfl
    · exact normalizeChar_ascii (by decide)
    · exact normalizeChar_ascii (by decide)

/-- A text of the alphabet is left as it is. -/
theorem normalize_alphabet {text : List Char} (h : ∀ c ∈ text, c ∈ ALPHABET) :
    normalizeRecoveryCode u text = text := by
  rw [normalizeRecoveryCode_eq]
  induction text with
  | nil => rfl
  | cons c text ih =>
    rw [List.flatMap_cons, normalizeChar_alphabet (h c List.mem_cons_self),
      ih fun x hx => h x (List.mem_cons_of_mem c hx)]
    rfl

theorem normalize_rewritten {code text : List Char} (h : Rewritten u code text) :
    normalizeRecoveryCode u text = normalizeRecoveryCode u code := by
  rw [normalizeRecoveryCode_eq, normalizeRecoveryCode_eq]
  induction h with
  | nil => rfl
  | letter hc hwritten _ ih =>
    rw [List.flatMap_cons, List.flatMap_cons, normalizeChar_written hc hwritten,
      normalizeChar_alphabet hc, ih]
  | inserted hd _ ih => rw [List.flatMap_cons, normalizeChar_separator hd, ih, List.nil_append]
  | removed hc _ ih => rw [List.flatMap_cons, normalizeChar_separator hc, ih, List.nil_append]

/-- The characters of a code without its hyphens. -/
def codeChars (bytes : CodeBytes) : List Char := List.ofFn fun i => codeChar (bytes i)

theorem codeChar_mem (b : UInt8) : codeChar b ∈ ALPHABET := by
  have hlt : b.toNat % ALPHABET.length < ALPHABET.length := Nat.mod_lt _ (by decide)
  have hall : ∀ n < ALPHABET.length, ALPHABET.getD n '0' ∈ ALPHABET := by decide
  exact hall _ hlt

theorem normalize_generate (bytes : CodeBytes) :
    normalizeRecoveryCode u (generateRecoveryCode bytes) = codeChars bytes := by
  have hchar : ∀ i : Fin CODE_CHARS, ((if 0 < i.val ∧ i.val % CODE_GROUP = 0 then ['-'] else []) ++
      [codeChar (bytes i)]).flatMap (normalizeChar u) = [codeChar (bytes i)] := by
    intro i
    rw [List.flatMap_append, List.flatMap_cons, List.flatMap_nil,
      normalizeChar_alphabet (codeChar_mem _)]
    split_ifs
    · rw [List.flatMap_cons, normalizeChar_hyphen]
      rfl
    · rfl
  rw [normalizeRecoveryCode_eq, generateRecoveryCode, List.flatMap_assoc, codeChars,
    List.ofFn_eq_map]
  simp only [hchar]
  exact List.map_eq_flatMap.symm

/-- A code is read as its characters however it was written down, two codes are read
differently, and what was read is read the same again. -/
theorem recovery_code_read (u : UpperCasing) :
    (∀ bytes, normalizeRecoveryCode u (generateRecoveryCode bytes) = codeChars bytes ∧
      (codeChars bytes).length = CODE_CHARS ∧ (∀ c ∈ codeChars bytes, c ∈ ALPHABET) ∧
      (∀ text, Rewritten u (generateRecoveryCode bytes) text →
        normalizeRecoveryCode u text = codeChars bytes) ∧
      ∀ bytes', generateRecoveryCode bytes ≠ generateRecoveryCode bytes' →
        normalizeRecoveryCode u (generateRecoveryCode bytes) ≠
          normalizeRecoveryCode u (generateRecoveryCode bytes')) ∧
    ∀ text, normalizeRecoveryCode u (normalizeRecoveryCode u text) =
      normalizeRecoveryCode u text := by
  refine ⟨fun bytes =>
    ⟨normalize_generate bytes, List.length_ofFn, fun c hc => ?_, fun text h => ?_,
      fun bytes' hne heq => ?_⟩,
    fun text => ?_⟩
  · obtain ⟨i, rfl⟩ := List.mem_ofFn.mp hc
    exact codeChar_mem _
  · rw [normalize_rewritten h, normalize_generate]
  · rw [normalize_generate, normalize_generate] at heq
    have hsame : ∀ i, codeChar (bytes i) = codeChar (bytes' i) := congrFun (List.ofFn_injective heq)
    exact hne (by simp only [generateRecoveryCode, hsame])
  · refine normalize_alphabet fun c hc => ?_
    rw [normalizeRecoveryCode_eq] at hc
    obtain ⟨x, _, hx⟩ := List.mem_flatMap.mp hc
    exact mem_normalizeChar hx

theorem rewritten_lower {code : List Char} (h : ∀ c ∈ code, c ∈ ALPHABET ∨ c = '-') :
    Rewritten u code ((code.filter (· ≠ '-')).map Char.toLower) := by
  have hhyphen : IsSeparator u '-' := by
    intro x hx
    rw [u.ascii '-' (by decide), List.mem_singleton] at hx
    exact hx ▸ rfl
  have hlower : ∀ c ∈ ALPHABET, c ≠ '-' ∧ c.toLower.toNat < 128 ∧ c.toLower.toUpper = c :=
    List.forall_iff_forall_mem.mp (by decide +kernel)
  induction code with
  | nil => exact .nil
  | cons c code ih =>
    have hrest := ih fun x hx => h x (List.mem_cons_of_mem c hx)
    rcases h c List.mem_cons_self with hc | rfl
    · obtain ⟨hne, hascii, hupper⟩ := hlower c hc
      rw [List.filter_cons_of_pos (by simpa using hne), List.map_cons]
      exact .letter hc (.same hascii hupper) hrest
    · rw [List.filter_cons_of_neg (by simp)]
      exact .removed hhyphen hrest

theorem mem_generate {bytes : CodeBytes} {c : Char} (h : c ∈ generateRecoveryCode bytes) :
    c ∈ ALPHABET ∨ c = '-' := by
  obtain ⟨i, _, hi⟩ := List.mem_flatMap.mp h
  rcases List.mem_append.mp hi with hi | hi
  · split_ifs at hi
    · exact Or.inr (List.mem_singleton.mp hi)
    · cases hi
  · exact Or.inl (List.mem_singleton.mp hi ▸ codeChar_mem _)

/-- Upper-casing of ASCII characters only. -/
def asciiCasing : UpperCasing := ⟨fun c => [c.toUpper], fun _ _ => rfl⟩

theorem recovery_code_read_lower : normalizeRecoveryCode asciiCasing
    (((generateRecoveryCode fun i => .ofNat (7 * i.val)).filter (· ≠ '-')).map Char.toLower) =
      codeChars fun i => .ofNat (7 * i.val) :=
  ((recovery_code_read asciiCasing).1 _).2.2.2.1 _ (rewritten_lower fun _ => mem_generate)

end SendSelf.Recovery

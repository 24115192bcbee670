import Mathlib.Data.List.Basic
import SendSelf.Library.Percent

/-!
# The path of a URL

A path that is followed to a URL is taken up to its query, cut where a slash or a backslash
stands, and freed of the segments that only say where the others hang: one dot for the same
place and two for the place above, in any of the ways of writing them. What a path cannot hold is
escaped. A path of segments without any of this stays what it is.
-/
namespace SendSelf.UrlPath
open Percent

abbrev Text := List Char

/-- The characters that a path holds as they are. -/
def kept (c : Char) : Bool :=
  decide (0x20 < c.toNat) && decide (c.toNat < 0x7F) &&
    !([0x22, 0x23, 0x3C, 0x3E, 0x3F, 0x5E, 0x60, 0x7B, 0x7D] : List ℕ).contains c.toNat

def isTabOrNewline (c : Char) : Bool := c = '\t' || c = '\n' || c = '\r'

def isSlash (c : Char) : Bool := c = '/' || c = '\\'

def endsPath (c : Char) : Bool := c = '?' || c = '#'

/-- What says the same place. -/
def dots : List Text := [['.'], ['%', '2', 'e'], ['%', '2', 'E']]

/-- What says the place above. -/
def doubleDots : List Text := dots.flatMap fun a => dots.map (a ++ ·)

/-- The segments that are left, those before them being `done`, the last one first. A path that
ends with dots ends with a slash instead. -/
def resolve : List Text → List Text → List Text
  | done, [] => done.reverse
  | done, [s] =>
      (if s ∈ doubleDots then [] :: done.tail
        else if s ∈ dots then [] :: done else s :: done).reverse
  | done, s :: t :: ss =>
      resolve (if s ∈ doubleDots then done.tail else if s ∈ dots then done else s :: done) (t :: ss)

def segments (text : Text) : List Text :=
  (((text.filter (!isTabOrNewline ·)).takeWhile (!endsPath ·)).splitOnP isSlash).tail

/-- A slash before each segment. -/
def path (ss : List Text) : Text := ss.flatMap ('/' :: ·)

/-- The path of the URL that a text starting with a slash leads to. -/
def pathname (text : Text) : Text := path ((resolve [] (segments text)).map (encode kept))

/-- A segment that nothing happens to. -/
structure Clean (segment : Text) : Prop where
  kept : ∀ c ∈ segment, kept c
  slash : ∀ c ∈ segment, isSlash c = false
  single : segment ∉ dots
  double : segment ∉ doubleDots

theorem path_cons (s : Text) (ss : List Text) : path (s :: ss) = '/' :: (s ++ path ss) := rfl

theorem resolve_clean {done ss : List Text} (h : ∀ s ∈ ss, s ∉ dots ∧ s ∉ doubleDots) :
    resolve done ss = done.reverse ++ ss := by
  fun_induction resolve done ss with
  | case1 done => exact (List.append_nil _).symm
  | case2 done s =>
    obtain ⟨h1, h2⟩ := h s List.mem_cons_self
    rw [if_neg h2, if_neg h1, List.reverse_cons]
  | case3 done s t ss ih =>
    obtain ⟨h1, h2⟩ := h s List.mem_cons_self
    rw [ih fun u hu => h u (List.mem_cons_of_mem s hu), if_neg h2, if_neg h1, List.reverse_cons,
      List.append_assoc]
    rfl

theorem not_ends_of_kept {c : Char} (h : kept c) :
    isTabOrNewline c = false ∧ endsPath c = false := by
  simp only [kept, Bool.and_eq_true, decide_eq_true_eq, Bool.not_eq_true', List.contains_eq_mem,
    decide_eq_false_iff_not, List.mem_cons, List.not_mem_nil, or_false, not_or] at h
  obtain ⟨⟨hl, -⟩, -, hh, -, -, hq, -⟩ := h
  refine ⟨?_, ?_⟩
  · simp only [isTabOrNewline, Bool.or_eq_false_iff, decide_eq_false_iff_not]
    refine ⟨⟨?_, ?_⟩, ?_⟩
    · rintro rfl
      exact absurd hl (by decide)
    · rintro rfl
      exact absurd hl (by decide)
    · rintro rfl
      exact absurd hl (by decide)
  · simp only [endsPath, Bool.or_eq_false_iff, decide_eq_false_iff_not]
    refine ⟨?_, ?_⟩
    · rintro rfl
      exact hq rfl
    · rintro rfl
      exact hh rfl

theorem mem_path {ss : List Text} {c : Char} (h : c ∈ path ss) : c = '/' ∨ ∃ s ∈ ss, c ∈ s := by
  obtain ⟨s, hs, hc⟩ := List.mem_flatMap.mp h
  rcases List.mem_cons.mp hc with hc | hc
  · exact Or.inl hc
  · exact Or.inr ⟨s, hs, hc⟩

/-- Cutting at the separators gives the segments, after an empty one that stands before the first
separator. -/
theorem splitOnP_path {p : Char → Bool} (hp : p '/') {ss : List Text}
    (h : ∀ s ∈ ss, ∀ c ∈ s, p c = false) :
    (path ss).splitOnP p = [] :: ss := by
  have hfrom : ∀ s : Text, (∀ c ∈ s, p c = false) → (s ++ path ss).splitOnP p = s :: ss := by
    induction ss with
    | nil =>
      intro s hs
      change (s ++ []).splitOnP p = [s]
      rw [List.append_nil]
      exact List.splitOnP_eq_singleton hs
    | cons t ss ih =>
      intro s hs
      rw [path_cons, List.splitOnP_append_cons_of_forall_mem hs _ hp,
        ih (fun u hu => h u (List.mem_cons_of_mem t hu)) t (h t List.mem_cons_self)]
  exact hfrom [] fun c hc => absurd hc List.not_mem_nil

theorem takeWhile_path {q : Char → Bool} {ss : List Text} {rest : Text} (h : ∀ c ∈ path ss, q c)
    (hr : ∀ c ∈ rest.head?, q c = false) : (path ss ++ rest).takeWhile q = path ss := by
  rw [List.takeWhile_append_of_pos h]
  cases rest with
  | nil => rw [List.takeWhile_nil, List.append_nil]
  | cons c rest => rw [List.takeWhile_cons, hr c rfl, if_neg Bool.false_ne_true, List.append_nil]

/-- Clean segments are the path of the URL, whatever query follows them. -/
theorem pathname_clean {ss : List Text} (h : ∀ s ∈ ss, Clean s) {query : Text}
    (hq : ∀ c ∈ query.head?, endsPath c) :
    pathname (path ss ++ query) = path ss := by
  have hmem : ∀ c ∈ path ss, isTabOrNewline c = false ∧ endsPath c = false := by
    intro c hc
    rcases mem_path hc with rfl | ⟨s, hs, hc⟩
    · decide
    · exact not_ends_of_kept ((h s hs).kept c hc)
  have hfilter : (path ss ++ query).filter (!isTabOrNewline ·) = path ss ++
      query.filter (!isTabOrNewline ·) := by
    rw [List.filter_append, List.filter_eq_self.mpr]
    intro c hc
    rw [(hmem c hc).1]
    rfl
  have hhead : ∀ c ∈ (query.filter (!isTabOrNewline ·)).head?, (!endsPath c) = false := by
    cases query with
    | nil =>
      intro c hc
      cases hc
    | cons d query =>
      have hd := hq d rfl
      have hn : isTabOrNewline d = false := by
        simp only [endsPath, Bool.or_eq_true, decide_eq_true_eq] at hd
        rcases hd with rfl | rfl <;> decide
      intro c hc
      rw [List.filter_cons, hn, Bool.not_false, if_pos rfl, List.head?_cons,
        Option.mem_some_iff] at hc
      rw [← hc, hd]
      rfl
  have hsegments : segments (path ss ++ query) = ss := by
    rw [segments, hfilter, takeWhile_path (fun c hc => by rw [(hmem c hc).2]; rfl) hhead,
      splitOnP_path rfl fun s hs => (h s hs).slash, List.tail_cons]
  rw [pathname, hsegments, resolve_clean fun s hs => ⟨(h s hs).single, (h s hs).double⟩,
    List.reverse_nil,
    List.nil_append]
  congr 1
  exact (List.map_congr_left fun s hs => encode_eq_self (h s hs).kept).trans (List.map_id' ss)

/-- Without dots and escapes there are no dot segments. -/
theorem Clean.of_plain {s : Text} (hk : ∀ c ∈ s, UrlPath.kept c) (hs : ∀ c ∈ s, isSlash c = false)
    (hd : '.' ∉ s) (he : '%' ∉ s) : Clean s := by
  have hall : ∀ d ∈ dots ++ doubleDots, '.' ∈ d ∨ '%' ∈ d := by decide
  have hnot : s ∉ dots ++ doubleDots := fun h => (hall s h).elim hd he
  exact ⟨hk, hs, fun h => hnot (List.mem_append_left _ h),
    fun h => hnot (List.mem_append_right _ h)⟩

/-- An encoded text is a dot segment only where the text itself is. -/
theorem Clean.of_encode {keep : Char → Bool} (hp : keep '%' = false)
    (hk : ∀ c, keep c → UrlPath.kept c)
    (hs : ∀ c, keep c → isSlash c = false) {s : Text} (h1 : s ≠ ['.']) (h2 : s ≠ ['.', '.']) :
    Clean (encode keep s) := by
  have hread : ∀ d ∈ dots, decode d = some ['.'] := by decide
  have hreads : ∀ d ∈ doubleDots, decode d = some ['.', '.'] := by decide
  have hescape : ∀ c ∈ '%' :: hexDigits, UrlPath.kept c ∧ isSlash c = false :=
    List.forall_iff_forall_mem.mp (by decide)
  have hmem : ∀ c ∈ encode keep s, UrlPath.kept c ∧ isSlash c = false := by
    intro c hc
    rcases mem_encode hc with h | rfl | h
    · exact ⟨hk c h, hs c h⟩
    · exact hescape _ List.mem_cons_self
    · exact hescape _ (List.mem_cons_of_mem _ h)
  refine ⟨fun c hc => (hmem c hc).1, fun c hc => (hmem c hc).2, ?_, ?_⟩
  · intro h
    exact h1 (Option.some.inj ((decode_encode hp s).symm.trans (hread _ h)))
  · intro h
    exact h2 (Option.some.inj ((decode_encode hp s).symm.trans (hreads _ h)))

end SendSelf.UrlPath

import Mathlib.Data.List.DropRight
import SendSelf.Routing.Router
import SendSelf.Library.Runs

/-!
# Places in the app, as URLs

Each place of the app has a path: the spaces, one of them with its messages or its devices, and
within its vault the top level, a folder and the trash. Going to a place writes its path into the
history of the tab and shows what the path says. Going back, forward and loading the page again
show what the URL says, after what the browser makes of a path. The two agree on every place
whose ids the path can hold: an id of dots would be taken for a step up by the browser, the
trash for a folder of that name.
-/
namespace SendSelf.Places
open Routing UrlPath

inductive SpaceSection where
  | chat | vault | devices
deriving DecidableEq, Repr

inductive VaultLocation where
  | folder (folderId : Option Text)
  | trash
deriving DecidableEq, Repr

/-- What the app shows. -/
inductive Route where
  | landing
  | spaces
  | space (spaceId : Text) (part : SpaceSection) (vault : Option VaultLocation)
deriving DecidableEq, Repr

def APP_PATH : Text := lit "/app"

/-- The characters that `encodeURIComponent` keeps. -/
def isUnreserved (c : Char) : Bool :=
  c.isAlphanum || ([0x2D, 0x5F, 0x2E, 0x21, 0x7E, 0x2A, 0x27, 0x28, 0x29] : List ℕ).contains c.toNat

def encodeURIComponent (text : Text) : Text := Percent.encode isUnreserved text

def SpaceSection.name : SpaceSection → Text
  | .chat => lit "chat"
  | .vault => lit "vault"
  | .devices => lit "devices"

def spacePath (spaceId : Text) (part : SpaceSection) : Text :=
  let base := APP_PATH ++ lit "/" ++ encodeURIComponent spaceId
  if part = .chat then base else base ++ lit "/" ++ part.name

def vaultPath (spaceId : Text) : VaultLocation → Text
  | .trash => spacePath spaceId .vault ++ lit "/trash"
  | .folder none => spacePath spaceId .vault
  | .folder (some folderId) =>
      if folderId = [] then spacePath spaceId .vault
      else spacePath spaceId .vault ++ lit "/" ++ encodeURIComponent folderId

/-- `replace(/^\\/+|\\/+$/g, "")` -/
def trimSlashes (text : Text) : Text := (text.dropWhile (· = '/')).rdropWhile (· = '/')

/-- What the parts below `/app` say; `none` where an id in them does not read. -/
def readParts (parts : List Text) : Option Route :=
  (decodeURIComponent (parts.getD 0 [])).bind fun spaceId =>
    if parts.getD 1 [] = lit "vault" then
      if parts.getD 2 [] = lit "trash" then some (.space spaceId .vault (some .trash))
      else if parts.getD 2 [] = [] then some (.space spaceId .vault (some (.folder none)))
      else (decodeURIComponent (parts.getD 2 [])).map fun folderId =>
        .space spaceId .vault (some (.folder (some folderId)))
    else some (.space spaceId (if parts.getD 1 [] = lit "devices" then .devices else .chat) none)

def parse (pathname : Text) : Option Route :=
  if pathname ≠ APP_PATH ∧ ¬(APP_PATH ++ lit "/") <+: pathname then some .landing
  else
    let rest := trimSlashes (pathname.drop APP_PATH.length)
    if rest = [] then some .spaces else readParts (rest.splitOnP (· = '/'))

/-- The history of a tab, the entries behind the current one and those ahead of it with the
nearest first, and what the app shows. -/
structure Tab where
  behind : List Text
  location : Text
  ahead : List Text
  route : Route
deriving DecidableEq

/-- A page that is loaded; it does not start where its path does not read. -/
def load (behind : List Text) (location : Text) (ahead : List Text) : Option Tab :=
  (parse location).map fun route => ⟨behind, location, ahead, route⟩

/-- Going to a path. A path that does not read is in the history all the same. -/
def navigate (path : Text) (replace : Bool) (tab : Tab) : Tab :=
  let route := (parse (path.takeWhile (!endsPath ·))).getD tab.route
  if replace then { tab with location := UrlPath.pathname path, route := route }
  else ⟨tab.location :: tab.behind, UrlPath.pathname path, [], route⟩

/-- Another section of the space that is open, in place of the current entry. -/
def showSpaceSection (part : SpaceSection) (tab : Tab) : Tab :=
  match tab.route with
  | .space spaceId current _ =>
      if current = part then tab else navigate (spacePath spaceId part) true tab
  | _ => tab

/-- One entry back, and what `popstate` shows then. -/
def back (tab : Tab) : Tab :=
  match tab.behind with
  | [] => tab
  | entry :: behind => ⟨behind, entry, tab.location :: tab.ahead, (parse entry).getD tab.route⟩

def forward (tab : Tab) : Tab :=
  match tab.ahead with
  | [] => tab
  | entry :: ahead => ⟨tab.location :: tab.behind, entry, ahead, (parse entry).getD tab.route⟩

/-- The places that the app's links and its own steps lead to. -/
inductive Place where
  | landing
  | spaces
  | space (spaceId : Text) (part : SpaceSection)
  | vault (spaceId : Text) (location : VaultLocation)
deriving DecidableEq

namespace Place

def path : Place → Text
  | landing => lit "/"
  | spaces => APP_PATH
  | space spaceId part => spacePath spaceId part
  | vault spaceId location => vaultPath spaceId location

/-- What the app shows there. -/
def route : Place → Route
  | landing => .landing
  | spaces => .spaces
  | space spaceId .vault => .space spaceId .vault (some (.folder none))
  | space spaceId part => .space spaceId part none
  | vault spaceId location => .space spaceId .vault (some location)

/-- An id that is one segment of a path, and stays it. -/
def IsSegment (id : Text) : Prop := id ≠ [] ∧ id ≠ ['.'] ∧ id ≠ ['.', '.']

/-- The ids of a place are segments, and no folder is named as the trash is. -/
def Addressable : Place → Prop
  | landing | spaces => True
  | space spaceId _ => IsSegment spaceId
  | vault spaceId (.folder (some folderId)) => IsSegment spaceId ∧ IsSegment folderId ∧
      folderId ≠ lit "trash"
  | vault spaceId _ => IsSegment spaceId

end Place

inductive Event where
  | navigate (place : Place) (replace : Bool)
  | showSpaceSection (part : SpaceSection)
  | back
  | forward
  | reload

def step (tab : Tab) : Event → Option Tab
  | .navigate place replace => some (navigate place.path replace tab)
  | .showSpaceSection part => some (showSpaceSection part tab)
  | .back => some (back tab)
  | .forward => some (forward tab)
  | .reload => load tab.behind tab.location tab.ahead

/-- The app goes to places that it can address. -/
def Leads (_ : Tab) : Event → Prop
  | .navigate place _ => place.Addressable
  | _ => True

theorem trimSlashes_path {s : Text} {ss : List Text} (h : ∀ t ∈ s :: ss, t ≠ [] ∧ '/' ∉ t) :
    trimSlashes (UrlPath.path (s :: ss)) = s ++ UrlPath.path ss := by
  have hlast : ∀ ss s, (∀ t ∈ s :: ss, t ≠ [] ∧ '/' ∉ t) → ∃ init c,
      s ++ UrlPath.path ss = init ++ [c] ∧ c ≠ '/' := by
    intro ss
    induction ss with
    | nil =>
      intro s hs
      obtain ⟨hne, hslash⟩ := hs s List.mem_cons_self
      refine ⟨s.dropLast, s.getLast hne, ?_, fun hc => hslash (hc ▸ List.getLast_mem hne)⟩
      rw [List.dropLast_append_getLast]
      exact List.append_nil s
    | cons u ss ih =>
      intro s hs
      obtain ⟨init, c, he, hc⟩ := ih u fun t ht => hs t (List.mem_cons_of_mem s ht)
      exact ⟨s ++ '/' :: init, c, by rw [path_cons, he, List.append_assoc, List.cons_append], hc⟩
  have hfirst : (UrlPath.path (s :: ss)).dropWhile (· = '/') = s ++ UrlPath.path ss := by
    obtain ⟨hne, hslash⟩ := h s List.mem_cons_self
    cases s with
    | nil => exact absurd rfl hne
    | cons c s =>
      have hc : c ≠ '/' := (List.ne_of_not_mem_cons hslash).symm
      rw [path_cons, List.dropWhile_cons_of_pos (by decide), List.cons_append,
        List.dropWhile_cons_of_neg (by simpa using hc)]
  obtain ⟨init, c, he, hc⟩ := hlast ss s h
  rw [trimSlashes, hfirst, he, List.rdropWhile_concat_neg _ _ _ (by simpa using hc)]

/-- Below `/app` the parts are the segments. -/
theorem parse_segments {s : Text} {ss : List Text} (h : ∀ t ∈ s :: ss, t ≠ [] ∧ '/' ∉ t) :
    parse (UrlPath.path (lit "app" :: s :: ss)) = readParts (s :: ss) := by
  have happ : UrlPath.path (lit "app" :: s :: ss) = APP_PATH ++ UrlPath.path (s :: ss) := by
    simp [UrlPath.path, APP_PATH, lit]
  have hcut : (s ++ UrlPath.path ss).splitOnP (· = '/') = s :: ss := by
    have hall := splitOnP_path (p := (· = '/')) (by decide) fun t ht c hc =>
      decide_eq_false fun hs => (h t ht).2 (hs ▸ hc)
    rw [path_cons, List.splitOnP_cons_eq_if_modifyHead] at hall
    simpa using hall
  have hne : s ++ UrlPath.path ss ≠ [] :=
    List.append_ne_nil_of_left_ne_nil (h s List.mem_cons_self).1 _
  rw [parse, if_neg, happ, List.drop_left, trimSlashes_path h]
  · simp only [if_neg hne, hcut]
  · rintro ⟨-, hp⟩
    refine hp ?_
    rw [happ, path_cons]
    exact ⟨s ++ UrlPath.path ss, by simp [lit]⟩

theorem unreserved_spec {c : Char} (h : isUnreserved c) : UrlPath.kept c ∧ isSlash c = false := by
  have hall : ∀ n < 128, isUnreserved (Char.ofNat n) → UrlPath.kept (Char.ofNat n) ∧
      isSlash (Char.ofNat n) = false := by
    decide
  have hlt : c.toNat < 128 := by
    unfold isUnreserved at h
    rcases Bool.or_eq_true_iff.mp h with h | h
    · exact lt_of_isAlphanum h
    · have hmem := List.contains_iff_mem.mp h
      revert hmem
      generalize c.toNat = n
      revert n
      decide
  have hc := hall c.toNat hlt
  rw [Char.ofNat_toNat] at hc
  exact hc h

namespace Place

instance decidableIsSegment (id : Text) : Decidable (IsSegment id) :=
  inferInstanceAs (Decidable (_ ∧ _))

instance decidableAddressable (p : Place) : Decidable p.Addressable := by
  unfold Addressable
  split <;> infer_instance

/-- The segments of the path of a place. -/
def segments : Place → List Text
  | landing => [[]]
  | spaces => [lit "app"]
  | space spaceId .chat => [lit "app", encodeURIComponent spaceId]
  | space spaceId part => [lit "app", encodeURIComponent spaceId, part.name]
  | vault spaceId .trash => [lit "app", encodeURIComponent spaceId, lit "vault", lit "trash"]
  | vault spaceId (.folder none) => [lit "app", encodeURIComponent spaceId, lit "vault"]
  | vault spaceId (.folder (some folderId)) =>
      [lit "app", encodeURIComponent spaceId, lit "vault", encodeURIComponent folderId]

theorem path_eq {p : Place} (h : p.Addressable) : p.path = UrlPath.path p.segments := by
  cases p with
  | landing => decide +kernel
  | spaces => decide +kernel
  | space spaceId part =>
    cases part <;> simp [path, segments, spacePath, UrlPath.path, APP_PATH, SpaceSection.name, lit]
  | vault spaceId location =>
    cases location with
    | trash =>
      simp [path, segments, vaultPath, spacePath, UrlPath.path, APP_PATH, SpaceSection.name, lit]
    | folder folderId =>
      cases folderId with
      | none =>
        simp [path, segments, vaultPath, spacePath, UrlPath.path, APP_PATH, SpaceSection.name, lit]
      | some folderId =>
        have hne : folderId ≠ [] := h.2.1.1
        simp [path, segments, vaultPath, spacePath, UrlPath.path, APP_PATH,
          SpaceSection.name, lit, hne]

theorem IsSegment.clean {id : Text} (h : IsSegment id) : Clean (encodeURIComponent id) :=
  .of_encode (by decide) (fun _ hc => (unreserved_spec hc).1) (fun _ hc =>
    (unreserved_spec hc).2) h.2.1 h.2.2

theorem IsSegment.decoded (id : Text) : decodeURIComponent (encodeURIComponent id) = some id :=
  Percent.decode_encode (by decide) id

theorem IsSegment.readable {id : Text} (h : IsSegment id) :
    encodeURIComponent id ≠ [] ∧ '/' ∉ encodeURIComponent id :=
  ⟨Percent.encode_ne_nil h.1, fun hs => Bool.noConfusion (h.clean.slash '/' hs)⟩

theorem clean_segments {p : Place} (h : p.Addressable) : ∀ s ∈ p.segments, Clean s := by
  have hlit : ∀ s ∈ [[], lit "app", lit "vault", lit "trash", lit "devices"], Clean s := fun s hs =>
    have hall : ∀ s ∈ [[], lit "app", lit "vault", lit "trash", lit "devices"], s.all UrlPath.kept ∧
        s.all (!isSlash ·) ∧ '.' ∉ s ∧ '%' ∉ s := by decide +kernel
    .of_plain (List.all_eq_true.mp (hall s hs).1)
      (fun c hc => (Bool.not_eq_true' _).mp (List.all_eq_true.mp (hall s hs).2.1 c hc))
        (hall s hs).2.2.1 (hall s hs).2.2.2
  simp only [List.forall_mem_cons] at hlit
  obtain ⟨hnil, happ, hvault, htrash, hdevices, -⟩ := hlit
  cases p with
  | landing => simpa [segments] using hnil
  | spaces => simpa [segments] using happ
  | space spaceId part =>
    have hid : Clean (encodeURIComponent spaceId) := IsSegment.clean h
    cases part with
    | chat => simpa [segments] using ⟨happ, hid⟩
    | vault => simpa [segments, SpaceSection.name] using ⟨happ, hid, hvault⟩
    | devices => simpa [segments, SpaceSection.name] using ⟨happ, hid, hdevices⟩
  | vault spaceId location =>
    cases location with
    | trash => simpa [segments] using ⟨happ, IsSegment.clean h, hvault, htrash⟩
    | folder folderId =>
      cases folderId with
      | none => simpa [segments] using ⟨happ, IsSegment.clean h, hvault⟩
      | some folderId =>
        simpa [segments] using ⟨happ, IsSegment.clean h.1, hvault, IsSegment.clean h.2.1⟩

/-- What the path of a place says is what the app shows there. -/
theorem parse_path {p : Place} (h : p.Addressable) : parse p.path = some p.route := by
  have hlit : lit "vault" ≠ [] ∧ '/' ∉ lit "vault" ∧ lit "trash" ≠ [] ∧ '/' ∉ lit "trash" ∧
      lit "devices" ≠ [] ∧
      '/' ∉ lit "devices" ∧ lit "devices" ≠ lit "vault" := by decide +kernel
  obtain ⟨hv, hv', ht, ht', hd, hd', hdv⟩ := hlit
  rw [path_eq h]
  cases p with
  | landing => decide +kernel
  | spaces => decide +kernel
  | space spaceId part =>
    obtain ⟨hne, hslash⟩ := IsSegment.readable h
    cases part with
    | chat =>
      rw [segments, parse_segments (by simp [hne, hslash])]
      simp [readParts, IsSegment.decoded, route, hv.symm, hd.symm]
    | vault =>
      change parse (UrlPath.path [lit "app", encodeURIComponent spaceId, lit "vault"]) = _
      rw [parse_segments (by simp [hne, hslash, hv, hv'])]
      simp [readParts, IsSegment.decoded, route, ht.symm]
    | devices =>
      change parse (UrlPath.path [lit "app", encodeURIComponent spaceId, lit "devices"]) = _
      rw [parse_segments (by simp [hne, hslash, hd, hd'])]
      simp [readParts, IsSegment.decoded, route, hdv]
  | vault spaceId location =>
    cases location with
    | trash =>
      obtain ⟨hne, hslash⟩ := IsSegment.readable h
      rw [segments, parse_segments (by simp [hne, hslash, hv, hv', ht, ht'])]
      simp [readParts, IsSegment.decoded, route]
    | folder folderId =>
      cases folderId with
      | none =>
        obtain ⟨hne, hslash⟩ := IsSegment.readable h
        rw [segments, parse_segments (by simp [hne, hslash, hv, hv'])]
        simp [readParts, IsSegment.decoded, route, ht.symm]
      | some folderId =>
        obtain ⟨hne, hslash⟩ := IsSegment.readable h.1
        obtain ⟨hfne, hfslash⟩ := IsSegment.readable h.2.1
        have htrash : encodeURIComponent folderId ≠ lit "trash" := by
          intro he
          have hread : decodeURIComponent (lit "trash") = some (lit "trash") := by decide +kernel
          exact h.2.2 (Option.some.inj ((IsSegment.decoded folderId).symm.trans (he ▸ hread)))
        rw [segments, parse_segments (by simp [hne, hslash, hv, hv', hfne, hfslash])]
        simp [readParts, IsSegment.decoded, route, htrash, hfne]

/-- The browser leaves the path of a place as it is. -/
theorem pathname_path {p : Place} (h : p.Addressable) : UrlPath.pathname p.path = p.path := by
  have hc : UrlPath.pathname (UrlPath.path p.segments ++ []) = UrlPath.path p.segments :=
    pathname_clean (clean_segments h) (by simp)
  rwa [List.append_nil, ← path_eq h] at hc

theorem takeWhile_path {p : Place} (h : p.Addressable) :
    p.path.takeWhile (!endsPath ·) = p.path := by
  rw [path_eq h, List.takeWhile_eq_self_iff]
  intro c hc
  rcases mem_path hc with rfl | ⟨s, hs, hc⟩
  · decide
  · rw [(not_ends_of_kept ((clean_segments h s hs).kept c hc)).2]
    rfl

/-- Nothing but the ids of a place is in what the app shows there. -/
theorem addressable_section {p : Place} (h : p.Addressable) {spaceId : Text}
    {current : SpaceSection}
    {vault : Option VaultLocation} (hr : p.route = .space spaceId current vault)
    (part : SpaceSection) :
    (Place.space spaceId part).Addressable := by
  cases p with
  | landing => cases hr
  | spaces => cases hr
  | space id other =>
    cases other <;> (cases hr; exact h)
  | vault id location =>
    cases hr
    cases location with
    | trash => exact h
    | folder folderId =>
      cases folderId with
      | none => exact h
      | some folderId => exact h.1

end Place

/-- The tab shows a place, and so does every entry of its history. -/
structure Tab.Shows (tab : Tab) (p : Place) : Prop where
  addressable : p.Addressable
  location : tab.location = p.path
  route : tab.route = p.route
  entries : ∀ entry ∈ tab.behind ++ tab.ahead, ∃ q : Place, q.Addressable ∧ entry = q.path

/-- Going to a place shows it, from wherever. -/
theorem Tab.Shows.navigate {tab : Tab} {p q : Place} (h : tab.Shows p) (hq : q.Addressable)
    (replace : Bool) :
    (Places.navigate q.path replace tab).Shows q := by
  cases replace with
  | true =>
    exact ⟨hq, q.pathname_path hq, by
      simp [Places.navigate, Place.takeWhile_path hq, Place.parse_path hq], h.entries⟩
  | false =>
    refine ⟨hq, q.pathname_path hq, by
      simp [Places.navigate, Place.takeWhile_path hq, Place.parse_path hq], ?_⟩
    intro entry hentry
    have hmem : entry ∈ tab.location :: tab.behind := by simpa [Places.navigate] using hentry
    rcases List.mem_cons.mp hmem with rfl | hb
    · exact ⟨p, h.addressable, h.location⟩
    · exact h.entries entry (List.mem_append_left _ hb)

theorem Tab.Shows.step {tab tab' : Tab} {p : Place} {e : Event} (h : tab.Shows p) (hl : Leads tab e)
    (hs : step tab e = some tab') : ∃ q, tab'.Shows q := by
  cases e with
  | navigate q replace =>
    cases hs
    exact ⟨q, h.navigate hl replace⟩
  | showSpaceSection part =>
    cases hs
    unfold showSpaceSection
    cases hr : tab.route with
    | landing => exact ⟨p, h⟩
    | spaces => exact ⟨p, h⟩
    | space spaceId current vault =>
      dsimp only
      split_ifs with hc
      · exact ⟨p, h⟩
      · exact ⟨_,
          h.navigate (Place.addressable_section h.addressable (h.route.symm.trans hr) part) true⟩
  | back =>
    cases hs
    unfold back
    cases hb : tab.behind with
    | nil => exact ⟨p, h⟩
    | cons entry behind =>
      obtain ⟨q, hq, rfl⟩ := h.entries entry (List.mem_append_left _ (hb ▸ List.mem_cons_self))
      refine ⟨q, hq, rfl, by simp [Place.parse_path hq], ?_⟩
      intro other hother
      rcases List.mem_append.mp hother with ho | ho
      · exact h.entries other (List.mem_append_left _ (hb ▸ List.mem_cons_of_mem _ ho))
      · rcases List.mem_cons.mp ho with rfl | ho
        · exact ⟨p, h.addressable, h.location⟩
        · exact h.entries other (List.mem_append_right _ ho)
  | forward =>
    cases hs
    unfold forward
    cases ha : tab.ahead with
    | nil => exact ⟨p, h⟩
    | cons entry ahead =>
      obtain ⟨q, hq, rfl⟩ := h.entries entry (List.mem_append_right _ (ha ▸ List.mem_cons_self))
      refine ⟨q, hq, rfl, by simp [Place.parse_path hq], ?_⟩
      intro other hother
      rcases List.mem_append.mp hother with ho | ho
      · rcases List.mem_cons.mp ho with rfl | ho
        · exact ⟨p, h.addressable, h.location⟩
        · exact h.entries other (List.mem_append_left _ ho)
      · exact h.entries other (List.mem_append_right _ (ha ▸ List.mem_cons_of_mem _ ho))
  | reload =>
    obtain ⟨route, hr, rfl⟩ := Option.map_eq_some_iff.mp hs
    rw [h.location, Place.parse_path h.addressable, Option.some.injEq] at hr
    exact ⟨p, h.addressable, h.location, hr.symm, h.entries⟩

/-- Wherever the app and its user have gone, the app shows the place that the URL names: loading
the page again shows the same, and so does coming back from any other place. -/
theorem url_names_what_is_shown {p : Place} {start tab : Tab} (hp : p.Addressable)
    (hload : load [] p.path [] = some start) (h : Runs.ReachableVia step Leads start tab) :
    ∃ q : Place, q.Addressable ∧ tab.location = q.path ∧
      tab.route = q.route ∧ step tab .reload = some tab ∧
      ∀ r : Place, r.Addressable → (back (navigate r.path false tab)).route = tab.route := by
  have hstart : start.Shows p := by
    obtain ⟨route, hr, rfl⟩ := Option.map_eq_some_iff.mp hload
    rw [Place.parse_path hp, Option.some.injEq] at hr
    exact ⟨hp, rfl, hr.symm, fun entry he => absurd he List.not_mem_nil⟩
  obtain ⟨q, hq⟩ :=
    h.invariant (I := fun tab : Tab => ∃ q, tab.Shows q) ⟨p, hstart⟩ fun s e t hs hl he =>
      hs.choose_spec.step hl he
  have hparse : parse tab.location = some tab.route := by
    rw [hq.location, hq.route, Place.parse_path hq.addressable]
  refine ⟨q, hq.addressable, hq.location, hq.route, ?_, ?_⟩
  · rw [step, load, hparse]
    rfl
  · intro r hr
    simp [navigate, back, hparse]

namespace Sample

def vault : Place := .vault (lit "a b") (.folder (some (lit "50%/é")))

def started : Tab := ⟨[], APP_PATH, [], .spaces⟩

def opened : Tab := navigate vault.path false started

end Sample

theorem url_names_what_is_shown_sample :
    (showSpaceSection .devices Sample.opened).location = lit "/app/a%20b/devices" ∧
      step (showSpaceSection .devices Sample.opened) .reload =
        some (showSpaceSection .devices Sample.opened) := by
  have hvault : Sample.vault.Addressable := by decide +kernel
  have hload : load [] Place.spaces.path [] = some Sample.started := by decide +kernel
  have hopened : Runs.ReachableVia step Leads Sample.started Sample.opened :=
    .next (e := .navigate Sample.vault false) .start hvault rfl
  have hrun :
      Runs.ReachableVia step Leads Sample.started (showSpaceSection .devices Sample.opened) :=
    .next (e := .showSpaceSection .devices) hopened trivial rfl
  obtain ⟨-, -, -, -, h, -⟩ := url_names_what_is_shown (p := .spaces) trivial hload hrun
  exact ⟨by decide +kernel, h⟩

end SendSelf.Places

import SendSelf.Library.UrlPath
import SendSelf.Worker.Schema

/-!
# The worker's router

A request goes to the first route that fits it: its method, its number of segments and each of
its literal parts are the route's own, and the parts with a name in them take what the segment
reads. A segment that does not read is refused on the spot, even by a route that a later part
would have ruled out.

Two routes of a table are apart when some literal part tells them apart. In a table whose routes
are pairwise apart a request is answered by one route at most, or refused by all that come to
read it, so the order of registration does not matter.
-/
namespace SendSelf.Routing
open UrlPath (Text)

inductive Method where
  | GET | POST | PUT | PATCH | DELETE
deriving DecidableEq, Repr

/-- A literal. It stays folded where it need not be read. -/
@[irreducible] def lit (s : String) : Text := s.toList

theorem lt_of_isAlphanum {c : Char} (h : c.isAlphanum) : c.toNat < 128 := by
  rcases (Bool.or_eq_true _ _).mp h with h | h
  · rcases (Bool.or_eq_true _ _).mp h with h | h
    · exact lt_of_le_of_lt (UInt32.le_iff_toNat_le.mp (of_decide_eq_true h).2) (by decide)
    · exact lt_of_le_of_lt
        (UInt32.le_iff_toNat_le.mp (of_decide_eq_true (Bool.and_eq_true_iff.mp h).2)) (by decide)
  · exact lt_of_le_of_lt (Char.isDigit_iff_toNat.mp h).2 (by decide)

abbrev Params := List (Text × Text)

def Params.set (params : Params) (name value : Text) : Params :=
  params.filter (·.1 ≠ name) ++ [(name, value)]

structure Route (η : Type*) where
  method : Method
  parts : List Text
  handler : η
deriving DecidableEq

/-- The segments between the slashes, without the empty ones. -/
def splitPath (text : Text) : List Text := (text.splitOnP (· = '/')).filter (· ≠ [])

abbrev Router (η : Type*) := List (Route η)

variable {η : Type*}

def Router.empty : Router η := []

def Router.add (router : Router η) (method : Method) (pattern : String) (handler : η) : Router η :=
  router ++ [⟨method, splitPath (lit pattern), handler⟩]

def decodeURIComponent (text : Text) : Option Text := Percent.decode text

def invalidPath : ApiError := ⟨.bad_request, "Invalid URL path"⟩

def isParam (part : Text) : Bool := part.head? = some ':'

/-- The loop over the parts of a route. -/
def matchParts : List Text → List Text → Params → Except ApiError (Option Params)
  | part :: parts, seg :: segments, params =>
      if isParam part then
        match decodeURIComponent seg with
        | some value => matchParts parts segments (params.set part.tail value)
        | none => .error invalidPath
      else if part = seg then matchParts parts segments params
      else .ok none
  | _, _, params => .ok (some params)

/-- What one route makes of a request; a method that no route has is `none`. -/
def Route.answer (route : Route η) (method : Option Method) (segments : List Text) :
    Except ApiError (Option (η × Params)) :=
  if some route.method ≠ method then .ok none
  else if route.parts.length ≠ segments.length then .ok none
  else (matchParts route.parts segments []).map fun params => params.map (route.handler, ·)

/-- The loop over the routes. -/
def Router.find : Router η → Option Method → List Text → Except ApiError (Option (η × Params))
  | [], _, _ => .ok none
  | route :: routes, method, segments =>
      match route.answer method segments with
      | .ok none => Router.find routes method segments
      | answer => answer

def Router.handle (router : Router η) (method : Option Method) (pathname : Text) :
    Except ApiError (Option (η × Params)) :=
  router.find method (splitPath pathname)

/-- Some literal part of the one is another literal in the other. -/
def clash : List Text → List Text → Bool
  | p :: ps, q :: qs => !isParam p && !isParam q && p ≠ q || clash ps qs
  | _, _ => false

def Route.Apart (r s : Route η) : Prop :=
  r.method = s.method → r.parts.length = s.parts.length → clash r.parts s.parts

instance Route.decidableApart : DecidableRel (Route.Apart (η := η)) := fun r s => by
  unfold Route.Apart
  infer_instance

/-- The literal parts of a route are read as something. -/
def Route.Readable (r : Route η) : Prop :=
  ∀ part ∈ r.parts, isParam part = false → decodeURIComponent part ≠ none

instance Route.decidableReadable (r : Route η) : Decidable r.Readable := by
  unfold Route.Readable
  infer_instance

theorem clash_comm (ps qs : List Text) : clash ps qs = clash qs ps := by
  induction ps generalizing qs with
  | nil => cases qs <;> rfl
  | cons p ps ih =>
    cases qs with
    | nil => rfl
    | cons q qs =>
      rw [clash, clash, ih qs, Bool.and_comm (!isParam p)]
      congr 2
      exact decide_eq_decide.mpr ne_comm

theorem Route.Apart.symm {r s : Route η} (h : r.Apart s) : s.Apart r := fun hm hl =>
  (clash_comm _ _).trans (h hm.symm hl.symm)

/-- Parts which refuse refuse the segment that does not read. -/
theorem matchParts_error {ps segments : List Text} {params : Params} {e : ApiError}
    (h : matchParts ps segments params = .error e) : e = invalidPath := by
  induction ps generalizing segments params with
  | nil => cases h
  | cons p ps ih =>
    cases segments with
    | nil => cases h
    | cons seg segments =>
      rw [matchParts] at h
      split_ifs at h with hp hl
      · cases hd : decodeURIComponent seg with
        | none =>
          rw [hd] at h
          exact (Except.error.inj h).symm
        | some value =>
          rw [hd] at h
          exact ih h
      · exact ih h

/-- What fits the parts of one route is not what the parts of another say, and they do not come to
refuse it: up to where they differ each segment is read by the one or is a literal of it. -/
theorem matchParts_apart {ps qs segments : List Text} {params params' : Params} {found : Params}
    (hr : ∀ part ∈ ps, isParam part = false → decodeURIComponent part ≠ none) (hc : clash ps qs)
    (hl : ps.length = segments.length) (h : matchParts ps segments params = .ok (some found)) :
    matchParts qs segments params' = .ok none := by
  induction ps generalizing qs segments params params' with
  | nil => cases hc
  | cons p ps ih =>
    cases qs with
    | nil => cases hc
    | cons q qs =>
      cases segments with
      | nil => cases hl
      | cons seg segments =>
        have hlt : ps.length = segments.length := Nat.succ.inj hl
        have hrt : ∀ part ∈ ps, isParam part = false → decodeURIComponent part ≠ none :=
          fun part hp => hr part (List.mem_cons_of_mem p hp)
        rw [clash, Bool.or_eq_true] at hc
        have hread : decodeURIComponent seg ≠ none ∧ (isParam p = false → p = seg) ∧
            ∃ params, matchParts ps segments params = .ok (some found) := by
          rw [matchParts] at h
          split_ifs at h with hp he
          · cases hd : decodeURIComponent seg with
            | none =>
              rw [hd] at h
              cases h
            | some value =>
              rw [hd] at h
              exact ⟨Option.some_ne_none value,
                fun hf => absurd (hp.symm.trans hf) Bool.noConfusion, _, h⟩
          · refine ⟨?_, fun _ => he, _, h⟩
            rw [← he]
            exact hr p List.mem_cons_self (Bool.eq_false_iff.mpr hp)
          · cases h
        obtain ⟨hsome, hlit, params₁, h₁⟩ := hread
        obtain ⟨value, hvalue⟩ := Option.ne_none_iff_exists'.mp hsome
        rw [matchParts]
        rcases hc with hc | hc
        · simp only [Bool.and_eq_true, Bool.not_eq_true', decide_eq_true_eq] at hc
          obtain ⟨⟨hp, hq⟩, hne⟩ := hc
          rw [hq, if_neg Bool.false_ne_true, if_neg fun he => hne ((hlit hp).trans he.symm)]
        · split_ifs with hq he
          · rw [hvalue]
            exact ih hrt hc hlt h₁
          · exact ih hrt hc hlt h₁
          · rfl

theorem Route.answer_eq_some {r : Route η} {method : Option Method} {segments : List Text}
    {found : η × Params} :
    r.answer method segments = .ok (some found) ↔ some r.method = method ∧
    r.parts.length = segments.length ∧
      ∃ params, matchParts r.parts segments [] = .ok (some params) ∧
        found = (r.handler, params) := by
  unfold Route.answer
  split_ifs with h1 h2
  · exact ⟨fun h => (by cases h), fun h => absurd h.1 h1⟩
  · exact ⟨fun h => (by cases h), fun h => absurd h.2.1 h2⟩
  · rw [not_not] at h1 h2
    cases matchParts r.parts segments [] with
    | error e =>
      exact ⟨fun h => (by cases h), fun h => (by obtain ⟨-, -, params, hp, -⟩ := h; cases hp)⟩
    | ok params =>
      cases params with
      | none =>
        exact ⟨fun h => (by cases h), fun h => (by obtain ⟨-, -, params, hp, -⟩ := h; cases hp)⟩
      | some params =>
        refine ⟨fun h => ⟨h1, h2, params, rfl, (Option.some.inj (Except.ok.inj h)).symm⟩, ?_⟩
        rintro ⟨-, -, params', hp, rfl⟩
        rw [← Option.some.inj (Except.ok.inj hp)]
        rfl

/-- Of two routes that are apart, one at most answers a request. -/
theorem Route.Apart.answer {r s : Route η} (h : r.Apart s) (hr : r.Readable)
    {method : Option Method}
    {segments : List Text} {found : η × Params} (hf : r.answer method segments = .ok (some found)) :
    s.answer method segments = .ok none := by
  obtain ⟨hm, hl, params, hp, -⟩ := Route.answer_eq_some.mp hf
  by_cases hsm : some s.method = method
  · by_cases hsl : s.parts.length = segments.length
    · have hc : clash r.parts s.parts := h (Option.some.inj (hm.trans hsm.symm)) (hl.trans hsl.symm)
      rw [Route.answer, if_neg (not_not.mpr hsm), if_neg (not_not.mpr hsl),
        matchParts_apart hr hc hl hp]
      rfl
    · rw [Route.answer, if_neg (not_not.mpr hsm), if_pos hsl]
  · rw [Route.answer, if_pos hsm]

theorem Route.answer_error {r : Route η} {method : Option Method} {segments : List Text}
    {e : ApiError} (h : r.answer method segments = .error e) : e = invalidPath := by
  unfold Route.answer at h
  split_ifs at h
  cases hp : matchParts r.parts segments [] with
  | error f =>
    rw [hp] at h
    rw [← Except.error.inj h]
    exact matchParts_error hp
  | ok params =>
    rw [hp] at h
    cases h

/-- A table in which no two routes get into each other's way. -/
structure Router.Unambiguous (router : Router η) : Prop where
  apart : router.Pairwise Route.Apart
  readable : ∀ r ∈ router, r.Readable

namespace Router.Unambiguous

variable {router router' : Router η}

theorem tail {r : Route η} (h : Router.Unambiguous (r :: router)) : Router.Unambiguous router :=
  ⟨h.apart.of_cons, fun s hs => h.readable s (List.mem_cons_of_mem r hs)⟩

theorem perm (h : router.Unambiguous) (hp : router.Perm router') : router'.Unambiguous :=
  ⟨(hp.pairwise_iff fun h => h.symm).mp h.apart, fun r hr => h.readable r (hp.mem_iff.mpr hr)⟩

/-- The answer is that of any route that has one. -/
theorem find_of_mem (h : router.Unambiguous) {r : Route η} (hr : r ∈ router)
    {method : Option Method} {segments : List Text} (ha : r.answer method segments ≠ .ok none) :
    router.find method segments = r.answer method segments := by
  induction router with
  | nil => cases hr
  | cons s router ih =>
    rw [Router.find]
    rcases List.mem_cons.mp hr with rfl | hr
    · split
      · next he => exact absurd he ha
      · rfl
    · have hs : s.Apart r := (List.pairwise_cons.mp h.apart).1 r hr
      have hread : s.Readable := h.readable s List.mem_cons_self
      have hread' : r.Readable := h.readable r (List.mem_cons_of_mem s hr)
      cases hsa : s.answer method segments with
      | ok found =>
        cases found with
        | none => exact ih h.tail hr
        | some found => exact absurd (hs.answer hread hsa) ha
      | error e =>
        cases hra : r.answer method segments with
        | ok found =>
          cases found with
          | none => exact absurd hra ha
          | some found =>
            rw [hs.symm.answer hread' hra] at hsa
            cases hsa
        | error f =>
          rw [Route.answer_error hsa, Route.answer_error hra]

end Router.Unambiguous

theorem Router.find_none {router : Router η} {method : Option Method} {segments : List Text}
    (h : ∀ r ∈ router, r.answer method segments = .ok none) :
    router.find method segments = .ok none := by
  induction router with
  | nil => rfl
  | cons r router ih =>
    rw [Router.find, h r List.mem_cons_self]
    exact ih fun s hs => h s (List.mem_cons_of_mem r hs)

/-- An unambiguous table answers the same in whichever order its routes are registered. -/
theorem Router.Unambiguous.handle_perm {router router' : Router η} (h : router.Unambiguous)
    (hp : router.Perm router') (method : Option Method) (pathname : Text) :
    router'.handle method pathname = router.handle method pathname := by
  unfold Router.handle
  by_cases hn : ∀ r ∈ router, r.answer method (splitPath pathname) = .ok none
  · rw [Router.find_none hn, Router.find_none fun r hr => hn r (hp.mem_iff.mpr hr)]
  · push Not at hn
    obtain ⟨r, hr, ha⟩ := hn
    rw [h.find_of_mem hr ha, (h.perm hp).find_of_mem (hp.mem_iff.mp hr) ha]

end SendSelf.Routing

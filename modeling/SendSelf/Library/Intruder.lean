import Mathlib.Tactic.Common
import Mathlib.Tactic.DeriveCountable

/-!
# What an intruder can put together

Messages are terms over public data and names, a name being a random value: a key, a secret or
the private half of a key pair. Whoever sees messages takes them apart and builds new ones, but
opens a cipher only with its key, opens a box only with the private half it was made for, and
signs only with a private key. Some names are guarded. If no message seen tells a guarded name,
then none can be put together from them, and what takes a guarded key to make was made by
someone who had it: it stands somewhere in a message seen.
-/
namespace SendSelf.Intruder

inductive Term (ν τ : Type*) where
  | data (x : τ)
  | name (n : ν)
  | pub (n : ν)
  | pair (a b : Term ν τ)
  | cipher (key context payload : Term ν τ)
  | box (owner : ν) (context payload : Term ν τ)
  | sign (signer : ν) (statement : Term ν τ)
  | hash (t : Term ν τ)
  | derived (secret salt : Term ν τ)
deriving DecidableEq, Repr, Countable

variable {ν τ : Type*}

/-- What can be put together from `seen`, given the names that are not guarded. Every public key
is known, and a context or a statement is not hidden by what is bound to it. -/
inductive Derives (guarded : ν → Prop) (seen : Term ν τ → Prop) : Term ν τ → Prop
  | seen {t} (h : seen t) : Derives guarded seen t
  | data (x) : Derives guarded seen (.data x)
  | name {n} (h : ¬ guarded n) : Derives guarded seen (.name n)
  | pub (n) : Derives guarded seen (.pub n)
  | pair {a b} (ha : Derives guarded seen a) (hb : Derives guarded seen b) :
      Derives guarded seen (.pair a b)
  | fst {a b} (h : Derives guarded seen (.pair a b)) : Derives guarded seen a
  | snd {a b} (h : Derives guarded seen (.pair a b)) : Derives guarded seen b
  | cipher {k c p} (hk : Derives guarded seen k) (hc : Derives guarded seen c)
      (hp : Derives guarded seen p) :
      Derives guarded seen (.cipher k c p)
  | context {k c p} (h : Derives guarded seen (.cipher k c p)) : Derives guarded seen c
  | opened {k c p} (h : Derives guarded seen (.cipher k c p)) (hk : Derives guarded seen k) :
      Derives guarded seen p
  | box (n) {c p} (hc : Derives guarded seen c) (hp : Derives guarded seen p) :
      Derives guarded seen (.box n c p)
  | label {n c p} (h : Derives guarded seen (.box n c p)) : Derives guarded seen c
  | unbox {n c p} (h : Derives guarded seen (.box n c p)) (hn : Derives guarded seen (.name n)) :
      Derives guarded seen p
  | sign {n m} (hn : Derives guarded seen (.name n)) (hm : Derives guarded seen m) :
      Derives guarded seen (.sign n m)
  | statement {n m} (h : Derives guarded seen (.sign n m)) : Derives guarded seen m
  | hash {t} (h : Derives guarded seen t) : Derives guarded seen (.hash t)
  | derived {t u} (ht : Derives guarded seen t) (hu : Derives guarded seen u) :
      Derives guarded seen (.derived t u)

/-- Nothing guarded shows, not to someone who has every term that is safe either. -/
def Safe (guarded : ν → Prop) : Term ν τ → Prop
  | .data _ | .pub _ | .hash _ => True
  | .name n => ¬ guarded n
  | .pair a b => Safe guarded a ∧ Safe guarded b
  | .cipher k c p => Safe guarded c ∧ (Safe guarded k → Safe guarded p)
  | .box n c p => Safe guarded c ∧ (¬ guarded n → Safe guarded p)
  | .sign _ m => Safe guarded m
  | .derived t u => Safe guarded t ∧ Safe guarded u

/-- The terms a term is made of, itself included. -/
inductive Occurs (u : Term ν τ) : Term ν τ → Prop
  | self : Occurs u u
  | fst {a b} (h : Occurs u a) : Occurs u (.pair a b)
  | snd {a b} (h : Occurs u b) : Occurs u (.pair a b)
  | key {k c p} (h : Occurs u k) : Occurs u (.cipher k c p)
  | context {k c p} (h : Occurs u c) : Occurs u (.cipher k c p)
  | sealed {k c p} (h : Occurs u p) : Occurs u (.cipher k c p)
  | label {n c p} (h : Occurs u c) : Occurs u (.box n c p)
  | boxed {n c p} (h : Occurs u p) : Occurs u (.box n c p)
  | statement {n m} (h : Occurs u m) : Occurs u (.sign n m)
  | hashed {t} (h : Occurs u t) : Occurs u (.hash t)
  | secret {t v} (h : Occurs u t) : Occurs u (.derived t v)
  | salt {t v} (h : Occurs u v) : Occurs u (.derived t v)

/-- What only the holder of something guarded makes. -/
def Protected (guarded : ν → Prop) : Term ν τ → Prop
  | .cipher k _ _ => ¬ Safe guarded k
  | .sign n _ => guarded n
  | _ => False

variable {guarded : ν → Prop} {seen : Term ν τ → Prop} {t u : Term ν τ}

/-- From what is safe only what is safe can be put together. -/
theorem Derives.safe (hs : ∀ t, seen t → Safe guarded t) (h : Derives guarded seen t) :
    Safe guarded t := by
  induction h with
  | seen h => exact hs _ h
  | data | pub | hash => trivial
  | name h => exact h
  | pair _ _ ha hb => exact ⟨ha, hb⟩
  | fst _ ih => exact ih.1
  | snd _ ih => exact ih.2
  | cipher _ _ _ _ hc hp => exact ⟨hc, fun _ => hp⟩
  | context _ ih => exact ih.1
  | opened _ _ ih hk => exact ih.2 hk
  | box n _ _ hc hp => exact ⟨hc, fun _ => hp⟩
  | label _ ih => exact ih.1
  | unbox _ _ ih hn => exact ih.2 hn
  | sign _ _ _ hm => exact hm
  | statement _ ih => exact ih
  | derived _ _ ht hu => exact ⟨ht, hu⟩

/-- A guarded name stays unknown. -/
theorem Derives.not_name {n : ν} (hs : ∀ t, seen t → Safe guarded t) (hn : guarded n) :
    ¬ Derives guarded seen (.name n) := fun h => h.safe hs hn

/-- What takes something guarded to make stands in a message seen. -/
theorem Derives.origin (hs : ∀ t, seen t → Safe guarded t) (hu : Protected guarded u)
    (h : Derives guarded seen t) (ho : Occurs u t) : ∃ m, seen m ∧ Occurs u m := by
  induction h with
  | seen h => exact ⟨_, h, ho⟩
  | data x =>
      cases ho with
      | self => exact hu.elim
  | name _ =>
      cases ho with
      | self => exact hu.elim
  | pub n =>
      cases ho with
      | self => exact hu.elim
  | pair _ _ iha ihb =>
      cases ho with
      | self => exact hu.elim
      | fst ho => exact iha ho
      | snd ho => exact ihb ho
  | fst _ ih => exact ih (.fst ho)
  | snd _ ih => exact ih (.snd ho)
  | cipher hk _ _ ihk ihc ihp =>
      cases ho with
      | self => exact absurd (hk.safe hs) hu
      | key ho => exact ihk ho
      | context ho => exact ihc ho
      | sealed ho => exact ihp ho
  | context _ ih => exact ih (.context ho)
  | opened _ _ ih _ => exact ih (.sealed ho)
  | box n _ _ ihc ihp =>
      cases ho with
      | self => exact hu.elim
      | label ho => exact ihc ho
      | boxed ho => exact ihp ho
  | label _ ih => exact ih (.label ho)
  | unbox _ _ ih _ => exact ih (.boxed ho)
  | sign hn _ _ ihm =>
      cases ho with
      | self => exact absurd (hn.safe hs) (not_not.mpr hu)
      | statement ho => exact ihm ho
  | statement _ ih => exact ih (.statement ho)
  | hash _ ih =>
      cases ho with
      | self => exact hu.elim
      | hashed ho => exact ih ho
  | derived _ _ iht ihu =>
      cases ho with
      | self => exact hu.elim
      | secret ho => exact iht ho
      | salt ho => exact ihu ho

end SendSelf.Intruder

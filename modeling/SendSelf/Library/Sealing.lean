import Mathlib.Tactic.Common

/-!
# Symbolic sealing

A box sealed to a public key opens with the private half of that key, and only
in the context it was sealed for. Nothing else about the cipher is used, so a
box is the recipient, the context and the payload, and opening one compares.
A box sealed under a symmetric key also carries its initialisation vector: key,
vector, context and payload determine it.
-/
namespace SendSelf

structure Box (κ γ α : Type*) where
  recipient : κ
  context : γ
  payload : α
deriving DecidableEq, Repr

namespace Box

variable {κ γ α : Type*} [DecidableEq κ] [DecidableEq γ]

/-- Opening with the private half of `key`, expecting `context`. -/
def openWith (b : Box κ γ α) (key : κ) (context : γ) : Option α :=
  if b.recipient = key ∧ b.context = context then some b.payload else none

theorem openWith_eq_some {b : Box κ γ α} {key : κ} {context : γ} {a : α} :
    b.openWith key context = some a ↔ b.recipient = key ∧ b.context = context ∧ b.payload = a := by
  unfold openWith
  split_ifs with h
  · simp [h]
  · simp only [false_iff]
    exact fun h' => h ⟨h'.1, h'.2.1⟩

/-- What is sealed to a key opens with it. -/
@[simp] theorem openWith_sealed (key : κ) (context : γ) (a : α) :
    (Box.mk key context a).openWith key context = some a := by simp [openWith]

end Box

@[ext] structure Sealed (κ ι γ α : Type*) where
  key : κ
  iv : ι
  context : γ
  payload : α
deriving DecidableEq, Repr

namespace Sealed

variable {κ ι γ α : Type*} [DecidableEq κ] [DecidableEq ι] [DecidableEq γ]

/-- Opening with a key, expecting a vector and a context. -/
def openWith (b : Sealed κ ι γ α) (key : κ) (iv : ι) (context : γ) : Option α :=
  if b.key = key ∧ b.iv = iv ∧ b.context = context then some b.payload else none

theorem openWith_eq_some {b : Sealed κ ι γ α} {key : κ} {iv : ι} {context : γ} {a : α} :
    b.openWith key iv context = some a ↔ b = ⟨key, iv, context, a⟩ := by
  unfold openWith
  split_ifs with h
  · simp [Sealed.ext_iff, h]
  · simp only [Sealed.ext_iff, false_iff]
    exact fun h' => h ⟨h'.1, h'.2.1, h'.2.2.1⟩

@[simp] theorem openWith_sealed (key : κ) (iv : ι) (context : γ) (a : α) :
    (Sealed.mk key iv context a).openWith key iv context = some a := by simp [openWith]

end Sealed
end SendSelf

import SendSelf.Library.Coroutine

/-!
# One coroutine among others

A coroutine is followed from await to await while others move the state wherever it is
suspended. What has to be the case at a point so that it ends as it should is the weakest
precondition `under`; the rules below move forward through a program, one call at a time, with
conditions that the others keep. A program that may fail is a coroutine that returns an `Except`.
-/
namespace SendSelf.Coroutine

variable {σ ω ε κ ι δ φ : Type} {Ans : ω → Type} {α β : Type}

/-- From `s` on, whatever the others do, the coroutine returns, and `Q` is the case then. -/
def Loop.under (L : Loop σ ε κ ι Ans) (others : σ → σ → Prop) :
    Coroutine σ Ans α → (α → σ → Prop) → σ → Prop
  | .done a, Q, s => Q a s
  | .throw, _, _ => False
  | .get k, Q, s => L.under others (k s) Q s
  | .modify f rest, Q, s => L.under others rest Q (f s)
  | .await op k, Q, s => ∀ s₁ e, others s s₁ → ∀ s₂, others (L.exec op e s₁).1 s₂ →
      L.under others (k (L.exec op e s₁).2) Q s₂

/-- A condition that the others keep. -/
def Stable (others : σ → σ → Prop) (P : σ → Prop) : Prop := ∀ s t, P s → others s t → P t

theorem Stable.and {others : σ → σ → Prop} {P Q : σ → Prop} (hP : Stable others P)
    (hQ : Stable others Q) :
    Stable others fun s => P s ∧ Q s := fun s t h hst => ⟨hP s t h.1 hst, hQ s t h.2 hst⟩

/-- What each guarded step of the others keeps. -/
theorem Stable.of_step {step : σ → δ → Option σ} {ok : σ → δ → Prop} {P : σ → Prop}
    (h : ∀ s e t, P s → ok s e → step s e = some t → P t) : Stable (Runs.ReachableVia step ok) P :=
  fun _ _ hs hst => hst.invariant hs h

/-- What goes on around an awaited operation: before it takes effect, and before its answer is
delivered. -/
structure Turn (δ ε : Type) where
  before : List δ
  answer : ε
  after : List δ

/-- Play a coroutine, turn by turn. -/
def Loop.play (L : Loop σ ε κ ι Ans) (move : σ → δ → Option σ) :
    Coroutine σ Ans α → σ → List (Turn δ ε) → Option (Option α × σ)
  | .done a, s, _ => some (some a, s)
  | .throw, s, _ => some (none, s)
  | .get k, s, turns => L.play move (k s) s turns
  | .modify f rest, s, turns => L.play move rest (f s) turns
  | .await _ _, _, [] => none
  | .await op k, s, turn :: turns =>
      (Runs.replay move s turn.before).bind fun s₁ =>
        (Runs.replay move (L.exec op turn.answer s₁).1 turn.after).bind fun s₂ =>
          L.play move (k (L.exec op turn.answer s₁).2) s₂ turns

variable {L : Loop σ ε κ ι Ans} {others : σ → σ → Prop} {s : σ}

theorem under_mono {p : Coroutine σ Ans α} {Q Q' : α → σ → Prop} (h : L.under others p Q s)
    (hQ : ∀ a s, Q a s → Q' a s) : L.under others p Q' s := by
  induction p generalizing s with
  | done a => exact hQ a s h
  | throw => exact h
  | get k ih => exact ih s h
  | modify f rest ih => exact ih h
  | await op k ih => exact fun s₁ e h₁ s₂ h₂ => ih _ (h s₁ e h₁ s₂ h₂)

theorem under_bind {p : Coroutine σ Ans α} {f : α → Coroutine σ Ans β} {Q : β → σ → Prop} :
    L.under others (p >>= f) Q s ↔ L.under others p (fun a s => L.under others (f a) Q s) s := by
  change L.under others (p.bind f) Q s ↔ _
  induction p generalizing s with
  | done a => rfl
  | throw => rfl
  | get k ih => exact ih s
  | modify g rest ih => exact ih
  | await op k ih =>
    exact forall₂_congr fun _ _ => imp_congr_right fun _ => forall₂_congr fun _ _ => ih _

theorem under_congr {p : Coroutine σ Ans α} {Q Q' : α → σ → Prop} (h : ∀ a s, Q a s ↔ Q' a s) :
    L.under others p Q s ↔ L.under others p Q' s :=
  ⟨fun hp => under_mono hp fun a s => (h a s).mp, fun hp => under_mono hp fun a s => (h a s).mpr⟩

/-- A call from a stable condition, and what is the case when it is answered. -/
theorem under_call {op : ω} {P : σ → Prop} {Q : Ans op → σ → Prop} (hs : P s) (hP : Stable others P)
    (hexec : ∀ s e, P s → Q (L.exec op e s).2 (L.exec op e s).1) (hQ : ∀ a, Stable others (Q a)) :
    L.under others (call op) Q s :=
  fun s₁ e h₁ _ h₂ => hQ _ _ _ (hexec s₁ e (hP s s₁ hs h₁)) h₂

theorem under_lift_run {p : Coroutine σ Ans α} {Q : Except φ α → σ → Prop} :
    L.under others (ExceptT.lift p : ExceptT φ (Coroutine σ Ans) α).run Q s ↔
      L.under others p (fun a s => Q (.ok a) s) s :=
  under_bind (p := p) (f := fun a => pure (Except.ok a))

/-- The rest runs if the first part did not fail. -/
theorem under_bind_run {x : ExceptT φ (Coroutine σ Ans) α} {f : α → ExceptT φ (Coroutine σ Ans) β}
    {Q : Except φ β → σ → Prop} : L.under others (x >>= f).run Q s ↔
      L.under others x.run (fun r s => match r with
        | .ok a => L.under others (f a).run Q s
        | .error e => Q (.error e) s) s := by
  change L.under others (x.run >>= ExceptT.bindCont f) Q s ↔ _
  rw [under_bind]
  refine under_congr fun r s => ?_
  cases r with
  | ok a => rfl
  | error e => rfl

/-- The handler runs if it did. -/
theorem under_tryCatch_run {x : ExceptT φ (Coroutine σ Ans) α}
    {handler : φ → ExceptT φ (Coroutine σ Ans) α}
    {Q : Except φ α → σ → Prop} : L.under others (tryCatch x handler).run Q s ↔
      L.under others x.run (fun r s => match r with
        | .ok a => Q (.ok a) s
        | .error e => L.under others (handler e).run Q s) s := by
  change L.under others (x.run >>= _) Q s ↔ _
  rw [under_bind]
  refine under_congr fun r s => ?_
  cases r with
  | ok a => rfl
  | error e => rfl

/-- It returns, and as it should. -/
theorem Loop.Ends.of_under {p : Coroutine σ Ans α} {t : σ} {r : Option α}
    (h : L.Ends others p s r t)
    {Q : α → σ → Prop} (hp : L.under others p Q s) : ∃ a, r = some a ∧ Q a t := by
  induction h with
  | done => exact ⟨_, rfl, hp⟩
  | throw => exact hp.elim
  | get _ ih => exact ih hp
  | modify _ ih => exact ih hp
  | await h₁ h₂ _ ih => exact ih (hp _ _ h₁ _ h₂)

/-- A coroutine that is left alone comes to an end. -/
theorem Loop.Ends.exists [Nonempty ε] (hrefl : ∀ s, others s s) (p : Coroutine σ Ans α) (s : σ) :
    ∃ r t, L.Ends others p s r t := by
  induction p generalizing s with
  | done a => exact ⟨_, _, .done⟩
  | throw => exact ⟨_, _, .throw⟩
  | get k ih =>
    obtain ⟨r, t, h⟩ := ih s s
    exact ⟨r, t, .get h⟩
  | modify f rest ih =>
    obtain ⟨r, t, h⟩ := ih (f s)
    exact ⟨r, t, .modify h⟩
  | await op k ih =>
    obtain ⟨e⟩ := ‹Nonempty ε›
    obtain ⟨r, t, h⟩ := ih _ (L.exec op e s).1
    exact ⟨r, t, .await (hrefl s) (hrefl _) h⟩

/-- What was played is an ending among others who make these moves. -/
theorem Loop.Ends.of_play {move : σ → δ → Option σ} {p : Coroutine σ Ans α}
    {turns : List (Turn δ ε)} {t : σ} {r : Option α} (h : L.play move p s turns = some (r, t)) :
    L.Ends (Runs.Reachable move) p s r t := by
  induction p generalizing s turns with
  | done a =>
    obtain ⟨rfl, rfl⟩ := Prod.mk.inj (Option.some.inj h)
    exact .done
  | throw =>
    obtain ⟨rfl, rfl⟩ := Prod.mk.inj (Option.some.inj h)
    exact .throw
  | get k ih => exact .get (ih s h)
  | modify f rest ih => exact .modify (ih h)
  | await op k ih =>
    cases turns with
    | nil => cases h
    | cons turn turns =>
      simp only [Loop.play, Option.bind_eq_some_iff] at h
      obtain ⟨s₁, h₁, s₂, h₂, h⟩ := h
      exact .await (Runs.reachable_of_replay h₁) (Runs.reachable_of_replay h₂) (ih _ h)

end SendSelf.Coroutine

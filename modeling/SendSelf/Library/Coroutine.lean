import Mathlib.Data.List.Basic
import SendSelf.Library.Runs

/-!
# Coroutines on one event loop

A program runs by itself from one `await` to the next and is interleaved with the
others in between. An awaited operation takes effect at some point after it was
asked for, and its answer is delivered at some point after that. A coroutine is a
tree of reads, writes and awaits; the loop holds the suspended ones, each with a
key of the state it was suspended in, so that a guard can say what a coroutine
finds when it is resumed.

The precondition calculus is parametric in an invariant `I` of every state between
two segments, in a preorder `R` that every step follows, and in the guard `G`.
-/
namespace SendSelf

inductive Coroutine (σ : Type) {ω : Type} (Ans : ω → Type) (α : Type) where
  | done (a : α)
  | throw
  | get (k : σ → Coroutine σ Ans α)
  | modify (f : σ → σ) (rest : Coroutine σ Ans α)
  | await (op : ω) (k : Ans op → Coroutine σ Ans α)

namespace Coroutine

variable {σ ω ε κ ι : Type} {Ans : ω → Type} {α β : Type}

def bind : Coroutine σ Ans α → (α → Coroutine σ Ans β) → Coroutine σ Ans β
  | done a, f => f a
  | throw, _ => throw
  | get k, f => get fun s => (k s).bind f
  | modify g rest, f => modify g (rest.bind f)
  | await op k, f => await op fun a => (k a).bind f

instance : Monad (Coroutine σ Ans) where
  pure := done
  bind := bind

/-- `try { p } catch { handler }`. -/
def catching : Coroutine σ Ans α → Coroutine σ Ans α → Coroutine σ Ans α
  | done a, _ => done a
  | throw, handler => handler
  | get k, handler => get fun s => (k s).catching handler
  | modify g rest, handler => modify g (rest.catching handler)
  | await op k, handler => await op fun a => (k a).catching handler

def read : Coroutine σ Ans σ := get done

def write (f : σ → σ) : Coroutine σ Ans Unit := modify f (done ())

def call (op : ω) : Coroutine σ Ans (Ans op) := await op done

/-- Run `body` for each item in turn. -/
def forEach (body : β → Coroutine σ Ans Unit) : List β → Coroutine σ Ans Unit
  | [] => done ()
  | b :: bs => (body b).bind fun _ => forEach body bs

/-- Run `body` for each item and keep what they give. -/
def forAll (body : α → Coroutine σ Ans β) : List α → Coroutine σ Ans (List β)
  | [] => done []
  | a :: as => (body a).bind fun b => (forAll body as).bind fun bs => done (b :: bs)

/-- Run up to the next await. -/
def advance : Coroutine σ Ans α → σ → σ × Coroutine σ Ans α
  | get k, s => (k s).advance s
  | modify f rest, s => rest.advance (f s)
  | p, s => (s, p)

/-- What the operations do, what is kept of the state at a suspension, and the program
of each job. -/
structure Loop (σ ε κ ι : Type) {ω : Type} (Ans : ω → Type) where
  exec : (op : ω) → ε → σ → σ × Ans op
  key : σ → κ
  program : ι → Coroutine σ Ans Unit

inductive Thread (σ κ ι : Type) {ω : Type} (Ans : ω → Type) where
  | awaiting (job : ι) (left : κ) (op : ω) (k : Ans op → Coroutine σ Ans Unit)
  | resuming (job : ι) (left : κ) (p : Coroutine σ Ans Unit)
  | finished

structure LoopState (σ κ ι : Type) {ω : Type} (Ans : ω → Type) where
  state : σ
  threads : List (Thread σ κ ι Ans)

inductive LoopEvent (ε ι : Type) where
  | start (job : ι)
  | perform (i : ℕ) (answer : ε)
  | resume (i : ℕ)

/-- What is left of a coroutine that stopped. -/
def park (job : ι) (left : κ) : Coroutine σ Ans Unit → Thread σ κ ι Ans
  | await op k => .awaiting job left op k
  | _ => .finished

namespace Loop

variable (L : Loop σ ε κ ι Ans)

/-- Run one segment of a job. -/
def segment (job : ι) (p : Coroutine σ Ans Unit) (s : σ) : σ × Thread σ κ ι Ans :=
  ((p.advance s).1, park job (L.key (p.advance s).1) (p.advance s).2)

def step (w : LoopState σ κ ι Ans) : LoopEvent ε ι → Option (LoopState σ κ ι Ans)
  | .start job =>
      let next := L.segment job (L.program job) w.state
      some ⟨next.1, w.threads ++ [next.2]⟩
  | .perform i answer =>
      match w.threads[i]? with
      | some (.awaiting job left op k) =>
          let next := L.exec op answer w.state
          some ⟨next.1, w.threads.set i (.resuming job left (k next.2))⟩
      | _ => none
  | .resume i =>
      match w.threads[i]? with
      | some (.resuming job _ p) =>
          let next := L.segment job p w.state
          some ⟨next.1, w.threads.set i next.2⟩
      | _ => none

/-- A job finds `S` when it starts, and the guard `G` when it is resumed. -/
def Guarded (S : ι → σ → Prop) (G : ι → κ → σ → Prop) (w : LoopState σ κ ι Ans) :
    LoopEvent ε ι → Prop
  | .start job => S job w.state
  | .resume i =>
      match w.threads[i]? with
      | some (.resuming job left _) => G job left w.state
      | _ => True
  | .perform _ _ => True

instance (S : ι → σ → Prop) (G : ι → κ → σ → Prop) [∀ j s, Decidable (S j s)]
    [∀ j l s, Decidable (G j l s)] (w : LoopState σ κ ι Ans) (e : LoopEvent ε ι) :
    Decidable (Guarded S G w e) := by
  unfold Guarded
  split
  · infer_instance
  · split <;> infer_instance
  · infer_instance

/-- From `s` on the coroutine is interleaved safely and ends with `Q`, or `E` if it throws. -/
def wp (I : σ → Prop) (R : σ → σ → Prop) (G : κ → σ → Prop) :
    Coroutine σ Ans α → (α → σ → Prop) → (σ → Prop) → σ → Prop
  | .done a, Q, _, s => Q a s
  | .throw, _, E, s => E s
  | .get k, Q, E, s => wp I R G (k s) Q E s
  | .modify f rest, Q, E, s => R s (f s) ∧ wp I R G rest Q E (f s)
  | .await op k, Q, E, s => I s ∧ ∀ s₁ e, I s₁ → R s s₁ →
      I (L.exec op e s₁).1 ∧ R s₁ (L.exec op e s₁).1 ∧
        ∀ s₂, I s₂ → R (L.exec op e s₁).1 s₂ → G (L.key s) s₂ →
        wp I R G (k (L.exec op e s₁).2) Q E s₂

/-- How a coroutine ends when `others` may move the state wherever it is suspended: with
what it returns, or with nothing if it throws. -/
inductive Ends (others : σ → σ → Prop) : Coroutine σ Ans α → σ → Option α → σ → Prop
  | done {a : α} {s : σ} : Ends others (.done a) s (some a) s
  | throw {s : σ} : Ends others .throw s none s
  | get {k : σ → Coroutine σ Ans α} {s t : σ} {r : Option α} : Ends others (k s) s r t →
      Ends others (.get k) s r t
  | modify {f : σ → σ} {rest : Coroutine σ Ans α} {s t : σ} {r : Option α} :
      Ends others rest (f s) r t → Ends others (.modify f rest) s r t
  | await {op : ω} {k : Ans op → Coroutine σ Ans α} {e : ε} {s s₁ s₂ t : σ} {r : Option α} :
      others s s₁ → others (L.exec op e s₁).1 s₂ → Ends others (k (L.exec op e s₁).2) s₂ r t →
      Ends others (.await op k) s r t

end Loop

variable {L : Loop σ ε κ ι Ans} {I : σ → Prop} {R : σ → σ → Prop} {G : κ → σ → Prop} {s : σ}
  {Q Q' : α → σ → Prop} {E E' : σ → Prop}

@[simp] theorem wp_pure {a : α} : L.wp I R G (pure a) Q E s ↔ Q a s := Iff.rfl

@[simp] theorem wp_done {a : α} : L.wp I R G (.done a) Q E s ↔ Q a s := Iff.rfl

@[simp] theorem wp_throw : L.wp I R G (.throw : Coroutine σ Ans α) Q E s ↔ E s := Iff.rfl

@[simp] theorem wp_read {Q : σ → σ → Prop} : L.wp I R G read Q E s ↔ Q s s := Iff.rfl

@[simp] theorem wp_write {f : σ → σ} {Q : Unit → σ → Prop} :
    L.wp I R G (write f) Q E s ↔ R s (f s) ∧ Q () (f s) := Iff.rfl

theorem wp_mono {p : Coroutine σ Ans α} (h : L.wp I R G p Q E s) (hQ : ∀ a s, Q a s → Q' a s)
    (hE : ∀ s, E s → E' s) : L.wp I R G p Q' E' s := by
  induction p generalizing s with
  | done a => exact hQ a s h
  | throw => exact hE s h
  | get k ih => exact ih s h
  | modify f rest ih => exact ⟨h.1, ih h.2⟩
  | await op k ih =>
    refine ⟨h.1, fun s₁ e hi hr => ?_⟩
    obtain ⟨hi', hr', hk⟩ := h.2 s₁ e hi hr
    exact ⟨hi', hr', fun s₂ hi₂ hr₂ hg => ih _ (hk s₂ hi₂ hr₂ hg)⟩

@[simp] theorem wp_bind {p : Coroutine σ Ans α} {f : α → Coroutine σ Ans β} {Q : β → σ → Prop} :
    L.wp I R G (p >>= f) Q E s ↔ L.wp I R G p (fun a s => L.wp I R G (f a) Q E s) E s := by
  change L.wp I R G (p.bind f) Q E s ↔ _
  induction p generalizing s with
  | done a => rfl
  | throw => rfl
  | get k ih => exact ih s
  | modify g rest ih => exact and_congr_right fun _ => ih
  | await op k ih =>
    refine and_congr_right fun _ => forall₄_congr fun s₁ e _ _ => and_congr_right fun _ => ?_
    exact and_congr_right fun _ => forall₄_congr fun s₂ _ _ _ => ih _

@[simp] theorem wp_catching {p handler : Coroutine σ Ans α} :
    L.wp I R G (p.catching handler) Q E s ↔
    L.wp I R G p Q (fun s => L.wp I R G handler Q E s) s := by
  induction p generalizing s with
  | done a => rfl
  | throw => rfl
  | get k ih => exact ih s
  | modify g rest ih => exact and_congr_right fun _ => ih
  | await op k ih =>
    refine and_congr_right fun _ => forall₄_congr fun s₁ e _ _ => and_congr_right fun _ => ?_
    exact and_congr_right fun _ => forall₄_congr fun s₂ _ _ _ => ih _

theorem wp_call {op : ω} {Q : Ans op → σ → Prop} : L.wp I R G (call op) Q E s ↔
    I s ∧ ∀ s₁ e, I s₁ → R s s₁ → I (L.exec op e s₁).1 ∧ R s₁ (L.exec op e s₁).1 ∧
      ∀ s₂, I s₂ → R (L.exec op e s₁).1 s₂ → G (L.key s) s₂ → Q (L.exec op e s₁).2 s₂ := Iff.rfl

/-- A condition that each round keeps, whether it throws or not. -/
theorem wp_forEach {body : β → Coroutine σ Ans Unit} {bs : List β} {J : σ → Prop} (h : J s)
    (hbody : ∀ b ∈ bs, ∀ s, J s → L.wp I R G (body b) (fun _ => J) E s) :
    L.wp I R G (forEach body bs) (fun _ => J) E s := by
  induction bs generalizing s with
  | nil => exact h
  | cons b bs ih =>
    refine (wp_bind (p := body b) (f := fun _ => forEach body bs)).mpr ?_
    refine wp_mono (hbody b (List.mem_cons_self ..) s h) (fun _ s' hs => ?_) fun _ => id
    exact ih hs fun c hc => hbody c (List.mem_cons_of_mem _ hc)

/-- What is kept along the way, and what each item comes to. -/
theorem wp_forAll {body : α → Coroutine σ Ans β} {as : List α} {J : σ → Prop}
    {P : α → β → Prop} (h : J s)
    (hbody : ∀ a ∈ as, ∀ s, J s → L.wp I R G (body a) (fun b s => P a b ∧ J s) E s) :
    L.wp I R G (forAll body as) (fun bs s => List.Forall₂ P as bs ∧ J s) E s := by
  induction as generalizing s with
  | nil => exact ⟨.nil, h⟩
  | cons a as ih =>
    refine (wp_bind (p := body a) (f := fun b => (forAll body as).bind fun bs =>
      done (b :: bs))).mpr ?_
    refine wp_mono (hbody a (List.mem_cons_self ..) s h) (fun b s' hb => ?_) fun _ => id
    refine (wp_bind (p := forAll body as) (f := fun bs => done (b :: bs))).mpr ?_
    refine wp_mono (ih hb.2 fun c hc => hbody c (List.mem_cons_of_mem _ hc)) (fun bs s'' hbs =>
      ?_) fun _ => id
    exact ⟨.cons hb.1 hbs.1, hbs.2⟩

/-- What an item came to. -/
theorem exists_of_forall₂ {P : α → β → Prop} {as : List α} {bs : List β} {a : α}
    (h : List.Forall₂ P as bs) (ha : a ∈ as) : ∃ b ∈ bs, P a b := by
  induction h with
  | nil => cases ha
  | cons hab _ ih =>
    rcases List.mem_cons.mp ha with rfl | ha
    · exact ⟨_, List.mem_cons_self .., hab⟩
    · obtain ⟨b, hb, hp⟩ := ih ha
      exact ⟨b, List.mem_cons_of_mem _ hb, hp⟩

section Ends

variable {others : σ → σ → Prop}

/-- Among others that keep the invariant and follow the preorder, a coroutine ends as it should. -/
theorem Loop.Ends.sound {p : Coroutine σ Ans α} {t : σ} {r : Option α} (h : L.Ends others p s r t)
    (hothers : ∀ s t, I s → others s t → I t ∧ R s t) (hG : ∀ k s, G k s)
    (hp : L.wp I R G p Q E s) :
    r.elim (E t) fun a => Q a t := by
  induction h with
  | done => exact hp
  | throw => exact hp
  | get _ ih => exact ih hp
  | modify _ ih => exact ih hp.2
  | @await op k e s s₁ s₂ t r h₁ h₂ _ ih =>
    obtain ⟨hi₁, hr₁⟩ := hothers _ _ hp.1 h₁
    obtain ⟨hi, hr, hk⟩ := hp.2 s₁ e hi₁ hr₁
    obtain ⟨hi₂, hr₂⟩ := hothers _ _ hi h₂
    exact ih (hk s₂ hi₂ hr₂ (hG _ _))

/-- Left alone, it does end. -/
theorem Loop.Ends.exists_of_wp [Nonempty ε] {p : Coroutine σ Ans α} (hrefl : ∀ s, I s → others s s)
    (hR : ∀ s, R s s) (hG : ∀ k s, G k s) (hp : L.wp I R G p Q E s) :
    ∃ r t, L.Ends others p s r t := by
  induction p generalizing s with
  | done a => exact ⟨_, _, .done⟩
  | throw => exact ⟨_, _, .throw⟩
  | get k ih =>
    obtain ⟨r, t, h⟩ := ih s hp
    exact ⟨r, t, .get h⟩
  | modify f rest ih =>
    obtain ⟨r, t, h⟩ := ih hp.2
    exact ⟨r, t, .modify h⟩
  | await op k ih =>
    obtain ⟨e⟩ := ‹Nonempty ε›
    obtain ⟨hi, hr, hk⟩ := hp.2 s e hp.1 (hR s)
    obtain ⟨r, t, h⟩ := ih _ (hk _ hi (hR _) (hG _ _))
    exact ⟨r, t, .await (hrefl s hp.1) (hrefl _ hi) h⟩

end Ends

section Runs

variable (hrefl : ∀ s, R s s) (htrans : ∀ s t u, R s t → R t u → R s u)

include htrans in
/-- What was the case before is still so afterwards, along the preorder. -/
theorem wp_since {p : Coroutine σ Ans α} {s₀ : σ} (h₀ : R s₀ s) (h : L.wp I R G p Q E s) :
    L.wp I R G p (fun a s => Q a s ∧ R s₀ s) (fun s => E s ∧ R s₀ s) s := by
  induction p generalizing s with
  | done a => exact ⟨h, h₀⟩
  | throw => exact ⟨h, h₀⟩
  | get k ih => exact ih s h₀ h
  | modify f rest ih => exact ⟨h.1, ih (htrans _ _ _ h₀ h.1) h.2⟩
  | await op k ih =>
    refine ⟨h.1, fun s₁ e hi hr => ?_⟩
    obtain ⟨hi', hr', hk⟩ := h.2 s₁ e hi hr
    exact ⟨hi', hr', fun s₂ hi₂ hr₂ hg =>
      ih _ (htrans _ _ _ h₀ (htrans _ _ _ hr (htrans _ _ _ hr' hr₂))) (hk s₂ hi₂ hr₂ hg)⟩

include hrefl htrans in
theorem wp_advance {p : Coroutine σ Ans α} (h : L.wp I R G p Q E s) :
    R s (p.advance s).1 ∧ L.wp I R G (p.advance s).2 Q E (p.advance s).1 := by
  induction p generalizing s with
  | done a => exact ⟨hrefl s, h⟩
  | throw => exact ⟨hrefl s, h⟩
  | get k ih => exact ih s h
  | modify f rest ih => exact ⟨htrans _ _ _ h.1 (ih h.2).1, (ih h.2).2⟩
  | await op k => exact ⟨hrefl s, h⟩

/-- A coroutine stops at an await or for good. -/
theorem advance_stops (p : Coroutine σ Ans α) (s : σ) :
    (∃ a, (p.advance s).2 = .done a) ∨ (p.advance s).2 = .throw ∨ ∃ op k,
    (p.advance s).2 = .await op k := by
  induction p generalizing s with
  | done a => exact Or.inl ⟨a, rfl⟩
  | throw => exact Or.inr (Or.inl rfl)
  | get k ih => exact ih s s
  | modify f rest ih => exact ih (f s)
  | await op k => exact Or.inr (Or.inr ⟨op, k, rfl⟩)

variable {S : ι → σ → Prop} {H : ι → κ → σ → Prop}

/-- What a suspended coroutine is owed by the others, and what it does then. -/
def Loop.Suspended (L : Loop σ ε κ ι Ans) (I : σ → Prop) (R : σ → σ → Prop)
    (H : ι → κ → σ → Prop) (s : σ) :
    Thread σ κ ι Ans → Prop
  | .awaiting job left op k => ∀ s₁ e, I s₁ → R s s₁ → I (L.exec op e s₁).1 ∧
  R s₁ (L.exec op e s₁).1 ∧
      ∀ s₂, I s₂ → R (L.exec op e s₁).1 s₂ → H job left s₂ →
        L.wp I R (H job) (k (L.exec op e s₁).2) (fun _ => I) I s₂
  | .resuming job left p => ∀ s₂, I s₂ → R s s₂ → H job left s₂ →
      L.wp I R (H job) p (fun _ => I) I s₂
  | .finished => True

include htrans in
theorem Loop.Suspended.later {t : Thread σ κ ι Ans} {s' : σ} (h : L.Suspended I R H s t)
    (hr : R s s') :
    L.Suspended I R H s' t := by
  cases t with
  | awaiting job left op k => exact fun s₁ e hi hr' => h s₁ e hi (htrans _ _ _ hr hr')
  | resuming job left p => exact fun s₂ hi hr' => h s₂ hi (htrans _ _ _ hr hr')
  | finished => trivial

include hrefl htrans in
theorem segment_spec {job : ι} {p : Coroutine σ Ans Unit}
    (h : L.wp I R (H job) p (fun _ => I) I s) :
    I (L.segment job p s).1 ∧ R s (L.segment job p s).1 ∧
      L.Suspended I R H (L.segment job p s).1 (L.segment job p s).2 := by
  obtain ⟨hr, hw⟩ := wp_advance hrefl htrans h
  unfold Loop.segment
  rcases advance_stops p s with ⟨a, hp⟩ | hp | ⟨op, k, hp⟩
  · rw [hp] at hw ⊢
    exact ⟨hw, hr, trivial⟩
  · rw [hp] at hw ⊢
    exact ⟨hw, hr, trivial⟩
  · rw [hp] at hw ⊢
    exact ⟨hw.1, hr, hw.2⟩

include hrefl htrans in
/-- Guarded runs keep the invariant, follow the preorder, and leave every suspended coroutine
with what it is owed. -/
theorem loop_suspends
    (hjobs : ∀ job s, I s → S job s → L.wp I R (H job) (L.program job) (fun _ => I) I s)
    {w₀ w : LoopState σ κ ι Ans} (h₀ : I w₀.state)
    (hthreads : ∀ t ∈ w₀.threads, L.Suspended I R H w₀.state t)
    (h : Runs.ReachableVia L.step (Loop.Guarded S H) w₀ w) :
    (I w.state ∧ R w₀.state w.state) ∧ ∀ t ∈ w.threads, L.Suspended I R H w.state t := by
  refine h.invariant (I := fun w => (I w.state ∧ R w₀.state w.state) ∧
    ∀ t ∈ w.threads, L.Suspended I R H w.state t) ⟨⟨h₀, hrefl _⟩, hthreads⟩ ?_
  intro w e w' ⟨⟨hi, hr⟩, hts⟩ hok hstep
  have hmove : ∀ {s' : σ} {i : ℕ} {t' : Thread σ κ ι Ans}, I s' → R w.state s' →
      L.Suspended I R H s' t' →
      (I s' ∧ R w₀.state s') ∧ ∀ t ∈ w.threads.set i t', L.Suspended I R H s' t := by
    intro s' i t' hi' hr' ht'
    refine ⟨⟨hi', htrans _ _ _ hr hr'⟩, fun t ht => ?_⟩
    rcases List.mem_or_eq_of_mem_set ht with ht | rfl
    · exact Loop.Suspended.later htrans (hts t ht) hr'
    · exact ht'
  cases e with
  | start job =>
    obtain rfl := Option.some.inj hstep
    obtain ⟨hi', hr', ht'⟩ := segment_spec hrefl htrans (hjobs job w.state hi hok)
    refine ⟨⟨hi', htrans _ _ _ hr hr'⟩, fun t ht => ?_⟩
    rcases List.mem_append.mp ht with ht | ht
    · exact Loop.Suspended.later htrans (hts t ht) hr'
    · obtain rfl := List.mem_singleton.mp ht
      exact ht'
  | perform i answer =>
    simp only [Loop.step] at hstep
    split at hstep
    · next job left op k hget =>
      obtain rfl := Option.some.inj hstep
      obtain ⟨hi', hr', hk⟩ := hts _ (List.mem_of_getElem? hget) w.state answer hi (hrefl _)
      exact hmove hi' hr' hk
    · cases hstep
  | resume i =>
    simp only [Loop.step] at hstep
    split at hstep
    · next job left p hget =>
      obtain rfl := Option.some.inj hstep
      simp only [Loop.Guarded, hget] at hok
      obtain ⟨hi', hr', ht'⟩ := segment_spec hrefl htrans
        (hts _ (List.mem_of_getElem? hget) w.state hi (hrefl _) hok)
      exact hmove hi' hr' ht'
    · cases hstep

include hrefl htrans in
/-- What every job keeps, run by itself from one await to the next, holds in every
state of every guarded run. -/
theorem loop_invariant
    (hjobs : ∀ job s, I s → S job s → L.wp I R (H job) (L.program job) (fun _ => I) I s)
    {w₀ w : LoopState σ κ ι Ans} (h₀ : I w₀.state)
    (hthreads : ∀ t ∈ w₀.threads, L.Suspended I R H w₀.state t)
    (h : Runs.ReachableVia L.step (Loop.Guarded S H) w₀ w) : I w.state ∧ R w₀.state w.state :=
  (loop_suspends hrefl htrans hjobs h₀ hthreads h).1

/-- Without a condition on what a coroutine finds, every run is guarded. -/
theorem guarded_of_reachable {w₀ w : LoopState σ κ ι Ans} (h : Runs.Reachable L.step w₀ w) :
    Runs.ReachableVia L.step (Loop.Guarded (fun _ _ => True) fun _ _ _ => True) w₀ w := by
  refine h.mono fun w e _ => ?_
  unfold Loop.Guarded
  split
  · trivial
  · split <;> trivial
  · trivial

end Runs

end Coroutine
end SendSelf

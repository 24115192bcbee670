import SendSelf.Library.Coroutine

/-!
# Jobs that do not show

Two families of jobs share a state and take turns in any order. The state is looked at up to an
equivalence: the jobs of one family cannot tell equivalent states apart, and those of the other
leave the state equivalent to what it was wherever a guard on their operations is met. A run of
both families is then the run of the first one alone, up to the equivalence.
-/
namespace SendSelf.Coroutine

variable {σ ω ε κ ι ι' : Type} {Ans : ω → Type} {α β : Type}

/-- Programs that do the same in equivalent states, up to what they have read. -/
inductive Loop.Alike (L : Loop σ ε κ ι Ans) (same : σ → σ → Prop) : Coroutine σ Ans α →
    Coroutine σ Ans α → Prop
  | done (a : α) : Alike L same (.done a) (.done a)
  | throw : Alike L same .throw .throw
  | get {k k' : σ → Coroutine σ Ans α} (h : ∀ s s', same s s' → Alike L same (k s) (k' s')) :
      Alike L same (.get k) (.get k')
  | modify {f f' : σ → σ} {rest rest' : Coroutine σ Ans α} (hstate : ∀ s s', same s s' →
      same (f s) (f' s'))
      (hrest : Alike L same rest rest') : Alike L same (.modify f rest) (.modify f' rest')
  | await {op op' : ω} {k : Ans op → Coroutine σ Ans α} {k' : Ans op' → Coroutine σ Ans α}
      (hstate : ∀ e s s', same s s' → same (L.exec op e s).1 (L.exec op' e s').1)
      (hnext : ∀ e s s', same s s' → Alike L same (k (L.exec op e s).2) (k' (L.exec op' e s').2)) :
      Alike L same (.await op k) (.await op' k')

/-- A program whose steps leave the state as it was, up to the equivalence, if its operations are
performed where the guard is met. -/
def Loop.quiet (L : Loop σ ε κ ι Ans) (same : σ → σ → Prop) (ok : ω → σ → Prop) :
    Coroutine σ Ans α → Prop
  | .done _ | .throw => True
  | .get k => ∀ s, L.quiet same ok (k s)
  | .modify f rest => (∀ s, same s (f s)) ∧ L.quiet same ok rest
  | .await op k => ∀ s e, ok op s → same s (L.exec op e s).1 ∧ L.quiet same ok (k (L.exec op e s).2)

/-- An operation is performed where the guard is met. -/
def LoopState.Performs (ok : ω → σ → Prop) (w : LoopState σ κ ι Ans) : LoopEvent ε ι → Prop
  | .perform i _ =>
      match w.threads[i]? with
      | some (.awaiting _ _ op _) => ok op w.state
      | _ => True
  | _ => True

instance (ok : ω → σ → Prop) [∀ op s, Decidable (ok op s)] (w : LoopState σ κ ι Ans) :
    (e : LoopEvent ε ι) → Decidable (w.Performs ok e)
  | .start _ | .resume _ => .isTrue trivial
  | .perform i _ => match hget : w.threads[i]? with
      | some (.awaiting _ _ op _) =>
          decidable_of_iff (ok op w.state) (by simp only [LoopState.Performs, hget])
      | some (.resuming _ _ _) | some .finished | none =>
          .isTrue (by simp only [LoopState.Performs, hget])

/-- The state, and the threads of the two families. -/
structure Company (σ κ ι ι' : Type) {ω : Type} (Ans : ω → Type) where
  state : σ
  shown : List (Thread σ κ ι Ans)
  hidden : List (Thread σ κ ι' Ans)

inductive Move (ε ι ι' : Type) where
  | shown (e : LoopEvent ε ι)
  | hidden (e : LoopEvent ε ι')

def Move.shown? : Move ε ι ι' → Option (LoopEvent ε ι)
  | .shown e => some e
  | .hidden _ => none

namespace Company

def step (L : Loop σ ε κ ι Ans) (M : Loop σ ε κ ι' Ans) (w : Company σ κ ι ι' Ans) :
    Move ε ι ι' → Option (Company σ κ ι ι' Ans)
  | .shown e => (L.step ⟨w.state, w.shown⟩ e).map fun v => ⟨v.state, v.threads, w.hidden⟩
  | .hidden e => (M.step ⟨w.state, w.hidden⟩ e).map fun v => ⟨v.state, w.shown, v.threads⟩

/-- A hidden operation is performed where the guard is met. -/
def Allowed (ok : ω → σ → Prop) (w : Company σ κ ι ι' Ans) : Move ε ι ι' → Prop
  | .shown _ => True
  | .hidden e => LoopState.Performs ok ⟨w.state, w.hidden⟩ e

instance (ok : ω → σ → Prop) [∀ op s, Decidable (ok op s)] (w : Company σ κ ι ι' Ans)
    (m : Move ε ι ι') :
    Decidable (Allowed ok w m) := by
  cases m with
  | shown e => exact instDecidableTrue
  | hidden e => exact inferInstanceAs (Decidable (LoopState.Performs ok ⟨w.state, w.hidden⟩ e))

end Company

variable {L : Loop σ ε κ ι Ans} {M : Loop σ ε κ ι' Ans} {same : σ → σ → Prop}
    {ok : ω → σ → Prop} {s s' : σ}

theorem Loop.Alike.bind {p p' : Coroutine σ Ans α} {f f' : α → Coroutine σ Ans β}
    (h : L.Alike same p p')
    (hf : ∀ a, L.Alike same (f a) (f' a)) : L.Alike same (p >>= f) (p' >>= f') := by
  change L.Alike same (p.bind f) (p'.bind f')
  induction h with
  | done a => exact hf a
  | throw => exact .throw
  | get _ ih => exact .get ih
  | modify hstate _ ih => exact .modify hstate ih
  | await hstate _ ih => exact .await hstate ih

theorem Loop.Alike.advance {p p' : Coroutine σ Ans α} (h : L.Alike same p p') (hs : same s s') :
    same (p.advance s).1 (p'.advance s').1 ∧ L.Alike same (p.advance s).2 (p'.advance s').2 := by
  induction h generalizing s s' with
  | done a => exact ⟨hs, .done a⟩
  | throw => exact ⟨hs, .throw⟩
  | get _ ih => exact ih s s' hs hs
  | modify hstate _ ih => exact ih (hstate s s' hs)
  | await hstate hnext => exact ⟨hs, .await hstate hnext⟩

theorem quiet_bind {p : Coroutine σ Ans α} {f : α → Coroutine σ Ans β} (h : L.quiet same ok p)
    (hf : ∀ a, L.quiet same ok (f a)) : L.quiet same ok (p >>= f) := by
  change L.quiet same ok (p.bind f)
  induction p with
  | done a => exact hf a
  | throw => trivial
  | get k ih => exact fun s => ih s (h s)
  | modify g rest ih => exact ⟨h.1, ih h.2⟩
  | await op k ih => exact fun s e hok => ⟨(h s e hok).1, ih _ (h s e hok).2⟩

theorem quiet_forEach {body : β → Coroutine σ Ans Unit} {bs : List β}
    (h : ∀ b ∈ bs, L.quiet same ok (body b)) :
    L.quiet same ok (forEach body bs) := by
  induction bs with
  | nil => trivial
  | cons b bs ih =>
    exact quiet_bind (h b (List.mem_cons_self ..)) fun _ => ih fun c hc =>
      h c (List.mem_cons_of_mem _ hc)

section Run

variable (hsame : Equivalence same)

include hsame in
theorem quiet_advance {p : Coroutine σ Ans α} (h : L.quiet same ok p) :
    same s (p.advance s).1 ∧ L.quiet same ok (p.advance s).2 := by
  induction p generalizing s with
  | done a => exact ⟨hsame.refl s, trivial⟩
  | throw => exact ⟨hsame.refl s, trivial⟩
  | get k ih => exact ih s (h s)
  | modify f rest ih => exact ⟨hsame.trans (h.1 s) (ih h.2).1, (ih h.2).2⟩
  | await op k => exact ⟨hsame.refl s, h⟩

inductive Thread.Alike (L : Loop σ ε κ ι Ans) (same : σ → σ → Prop) : Thread σ κ ι Ans →
    Thread σ κ ι Ans → Prop
  | awaiting {job : ι} {left left' : κ} {op op' : ω} {k : Ans op → Coroutine σ Ans Unit}
      {k' : Ans op' → Coroutine σ Ans Unit} (h : L.Alike same (.await op k) (.await op' k')) :
      Alike L same (.awaiting job left op k) (.awaiting job left' op' k')
  | resuming {job : ι} {left left' : κ} {p p' : Coroutine σ Ans Unit} (h : L.Alike same p p') :
      Alike L same (.resuming job left p) (.resuming job left' p')
  | finished : Alike L same .finished .finished

theorem Thread.Alike.of_awaiting {job : ι} {left : κ} {op : ω} {k : Ans op → Coroutine σ Ans Unit}
    {t : Thread σ κ ι Ans} (h : Thread.Alike L same (.awaiting job left op k) t) :
    ∃ left' op', ∃ k' : Ans op' → Coroutine σ Ans Unit,
      t = .awaiting job left' op' k' ∧ ∀ e s s', same s s' →
      same (L.exec op e s).1 (L.exec op' e s').1 ∧
        L.Alike same (k (L.exec op e s).2) (k' (L.exec op' e s').2) := by
  cases h with
  | awaiting h =>
    cases h with
    | await hstate hnext =>
      exact ⟨_, _, _, rfl, fun e s s' hs => ⟨hstate e s s' hs, hnext e s s' hs⟩⟩

theorem Thread.Alike.of_resuming {job : ι} {left : κ} {p : Coroutine σ Ans Unit}
    {t : Thread σ κ ι Ans} (h : Thread.Alike L same (.resuming job left p) t) :
    ∃ left' p', t = .resuming job left' p' ∧ L.Alike same p p' := by
  cases h with
  | resuming h => exact ⟨_, _, rfl, h⟩

theorem Loop.Alike.park {job : ι} {left left' : κ} {p p' : Coroutine σ Ans Unit}
    (h : L.Alike same p p') :
    Thread.Alike L same (Coroutine.park job left p) (Coroutine.park job left' p') := by
  cases h with
  | await hstate hnext => exact .awaiting (.await hstate hnext)
  | _ => exact .finished

def Thread.isFinished : Thread σ κ ι Ans → Bool
  | .finished => true
  | _ => false

def Thread.Quiet (M : Loop σ ε κ ι' Ans) (same : σ → σ → Prop) (ok : ω → σ → Prop) :
    Thread σ κ ι' Ans → Prop
  | .awaiting _ _ op k => M.quiet same ok (.await op k)
  | .resuming _ _ p => M.quiet same ok p
  | .finished => True

theorem quiet_park {job : ι'} {left : κ} {p : Coroutine σ Ans Unit} (h : M.quiet same ok p) :
    Thread.Quiet M same ok (Coroutine.park job left p) := by
  cases p with
  | await op k => exact h
  | _ => trivial

/-- Two worlds of the first family that are the same, thread by thread. -/
structure LoopState.Alike (L : Loop σ ε κ ι Ans) (same : σ → σ → Prop)
    (w w' : LoopState σ κ ι Ans) : Prop where
  state : same w.state w'.state
  length : w.threads.length = w'.threads.length
  threads : ∀ (i : ℕ) t t', w.threads[i]? = some t → w'.threads[i]? = some t' →
    Thread.Alike L same t t'

namespace LoopState.Alike

variable {w w' v : LoopState σ κ ι Ans}

theorem thread (h : w.Alike L same w') {i : ℕ} {t : Thread σ κ ι Ans}
    (ht : w.threads[i]? = some t) :
    ∃ t', w'.threads[i]? = some t' ∧ Thread.Alike L same t t' := by
  have hi : i < w'.threads.length := h.length ▸ (List.getElem?_eq_some_iff.mp ht).1
  exact ⟨w'.threads[i], List.getElem?_eq_getElem hi,
    h.threads i t _ ht (List.getElem?_eq_getElem hi)⟩

/-- One thread moves. -/
theorem set (h : w.Alike L same w') {i : ℕ} {t t' : Thread σ κ ι Ans} (hs : same s s')
    (ht : Thread.Alike L same t t') :
    LoopState.Alike L same ⟨s, w.threads.set i t⟩ ⟨s', w'.threads.set i t'⟩ := by
  refine ⟨hs, by simp [h.length], fun j u u' hu hu' => ?_⟩
  dsimp only at hu hu'
  rw [List.getElem?_set] at hu hu'
  by_cases hj : i = j
  · rw [if_pos hj] at hu hu'
    split_ifs at hu hu' with hlt hlt'
    obtain rfl := Option.some.inj hu
    obtain rfl := Option.some.inj hu'
    exact ht
  · rw [if_neg hj] at hu hu'
    exact h.threads j u u' hu hu'

/-- One is added. -/
theorem append (h : w.Alike L same w') {t t' : Thread σ κ ι Ans} (hs : same s s')
    (ht : Thread.Alike L same t t') :
    LoopState.Alike L same ⟨s, w.threads ++ [t]⟩ ⟨s', w'.threads ++ [t']⟩ := by
  refine ⟨hs, by simp [h.length], fun j u u' hu hu' => ?_⟩
  dsimp only at hu hu'
  rcases Nat.lt_or_ge j w.threads.length with hj | hj
  · rw [List.getElem?_append_left hj] at hu
    rw [List.getElem?_append_left (h.length ▸ hj)] at hu'
    exact h.threads j u u' hu hu'
  · rw [List.getElem?_append_right hj] at hu
    rw [List.getElem?_append_right (h.length ▸ hj), ← h.length] at hu'
    obtain rfl := List.mem_singleton.mp (List.mem_of_getElem? hu)
    obtain rfl := List.mem_singleton.mp (List.mem_of_getElem? hu')
    exact ht

/-- The same threads are through. -/
theorem finished (h : w.Alike L same w') :
    w.threads.map Thread.isFinished = w'.threads.map Thread.isFinished := by
  refine List.ext_getElem? fun i => ?_
  rw [List.getElem?_map, List.getElem?_map]
  cases hw : w.threads[i]? with
  | none =>
    have hi : w'.threads[i]? = none := by
      rw [List.getElem?_eq_none_iff, ← h.length]
      exact List.getElem?_eq_none_iff.mp hw
    rw [hi]
  | some t =>
    obtain ⟨t', ht', halike⟩ := h.thread hw
    rw [ht']
    cases halike <;> rfl

variable (hL : ∀ job, L.Alike same (L.program job) (L.program job))

include hL in
/-- The first family does the same in both worlds. -/
theorem step {e : LoopEvent ε ι} (h : w.Alike L same w') (hstep : L.step w e = some v) :
    ∃ v', L.step w' e = some v' ∧ v.Alike L same v' := by
  cases e with
  | start job =>
    obtain rfl := Option.some.inj hstep
    obtain ⟨hs, hp⟩ := (hL job).advance h.state
    exact ⟨_, rfl, h.append hs hp.park⟩
  | perform i answer =>
    simp only [Loop.step] at hstep
    split at hstep
    · next job left op k hget =>
      obtain rfl := Option.some.inj hstep
      obtain ⟨t', hget', halike⟩ := h.thread hget
      obtain ⟨left', op', k', rfl, hexec⟩ := halike.of_awaiting
      obtain ⟨hs, hk⟩ := hexec answer _ _ h.state
      refine ⟨⟨(L.exec op' answer w'.state).1,
        w'.threads.set i (.resuming job left' (k' (L.exec op' answer w'.state).2))⟩,
        by simp only [Loop.step, hget'], h.set hs (.resuming hk)⟩
    · cases hstep
  | resume i =>
    simp only [Loop.step] at hstep
    split at hstep
    · next job left p hget =>
      obtain rfl := Option.some.inj hstep
      obtain ⟨t', hget', halike⟩ := h.thread hget
      obtain ⟨left', p', rfl, hp⟩ := halike.of_resuming
      obtain ⟨hs, hp⟩ := hp.advance h.state
      refine ⟨⟨(L.segment job p' w'.state).1, w'.threads.set i (L.segment job p' w'.state).2⟩,
        by simp only [Loop.step, hget'], h.set hs hp.park⟩
    · cases hstep

end LoopState.Alike

variable (hL : ∀ job, L.Alike same (L.program job) (L.program job))
    (hM : ∀ job, M.quiet same ok (M.program job))

include hsame hM in
/-- The second family leaves the state as it was. -/
theorem quiet_step {w v : LoopState σ κ ι' Ans} {e : LoopEvent ε ι'}
    (hquiet : ∀ t ∈ w.threads, Thread.Quiet M same ok t)
    (hok : w.Performs ok e) (hstep : M.step w e = some v) :
    same w.state v.state ∧ ∀ t ∈ v.threads, Thread.Quiet M same ok t := by
  have hset : ∀ {i : ℕ} {t : Thread σ κ ι' Ans}, Thread.Quiet M same ok t →
      ∀ u ∈ w.threads.set i t, Thread.Quiet M same ok u := by
    intro i t ht u hu
    rcases List.mem_or_eq_of_mem_set hu with hu | rfl
    · exact hquiet u hu
    · exact ht
  cases e with
  | start job =>
    obtain rfl := Option.some.inj hstep
    obtain ⟨hs, hp⟩ := quiet_advance (s := w.state) hsame (hM job)
    refine ⟨hs, fun t ht => ?_⟩
    rcases List.mem_append.mp ht with ht | ht
    · exact hquiet t ht
    · obtain rfl := List.mem_singleton.mp ht
      exact quiet_park hp
  | perform i answer =>
    simp only [Loop.step] at hstep
    split at hstep
    · next job left op k hget =>
      obtain rfl := Option.some.inj hstep
      simp only [LoopState.Performs, hget] at hok
      obtain ⟨hs, hk⟩ := hquiet _ (List.mem_of_getElem? hget) w.state answer hok
      exact ⟨hs, hset hk⟩
    · cases hstep
  | resume i =>
    simp only [Loop.step] at hstep
    split at hstep
    · next job left p hget =>
      obtain rfl := Option.some.inj hstep
      obtain ⟨hs, hp⟩ := quiet_advance (s := w.state) hsame (hquiet _ (List.mem_of_getElem? hget))
      exact ⟨hs, hset (quiet_park hp)⟩
    · cases hstep

include hsame hL hM in
/-- What a run of both comes to is what the first family comes to alone. -/
theorem Company.alone [∀ op s, Decidable (ok op s)] {moves : List (Move ε ι ι')}
    {w₀ w : Company σ κ ι ι' Ans} {v₀ : LoopState σ κ ι Ans}
    (h : Runs.replayVia (Company.step L M) (Allowed ok) w₀ moves = some w)
    (halike : LoopState.Alike L same ⟨w₀.state, w₀.shown⟩ v₀)
    (hquiet : ∀ t ∈ w₀.hidden, Thread.Quiet M same ok t) :
    ∃ v, Runs.replay L.step v₀ (moves.filterMap Move.shown?) = some v ∧
      LoopState.Alike L same ⟨w.state, w.shown⟩ v := by
  induction moves generalizing w₀ v₀ with
  | nil =>
    obtain rfl : w₀ = w := Option.some.inj h
    exact ⟨v₀, rfl, halike⟩
  | cons m moves ih =>
    simp only [Runs.replayVia] at h
    split_ifs at h with hok
    obtain ⟨w₁, hstep, h⟩ := Option.bind_eq_some_iff.mp h
    cases m with
    | shown e =>
      obtain ⟨u, hu, rfl⟩ := Option.map_eq_some_iff.mp hstep
      obtain ⟨v₁, hstep', halike'⟩ := halike.step hL hu
      obtain ⟨v, hrun, hv⟩ := ih h halike' hquiet
      refine ⟨v, ?_, hv⟩
      change (L.step v₀ e).bind _ = some v
      rw [hstep']
      exact hrun
    | hidden e =>
      obtain ⟨u, hu, rfl⟩ := Option.map_eq_some_iff.mp hstep
      obtain ⟨hs, hquiet'⟩ := quiet_step (w := ⟨w₀.state, w₀.hidden⟩) hsame hM hquiet hok hu
      exact ih h ⟨hsame.trans (hsame.symm hs) halike.state, halike.length, halike.threads⟩ hquiet'

end Run

end SendSelf.Coroutine

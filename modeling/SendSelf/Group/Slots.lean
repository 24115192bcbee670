import SendSelf.Group.Server

/-!
# Completing a pairing

The two statements that complete a pairing ask for the same open slot at the same epoch,
and the second asks besides for what the first has just written. So they go through
together or not at all, in whatever state the reads before them have been left behind by
rotations, revocations and other occupants of the slot. The log keeps what each request
has read and changed, and how many packages were left in a slot since it was reserved.
-/
namespace SendSelf

/-- A step of a request that changed devices or slots. -/
structure PairingWrite where
  request : RequestId
  before : SpaceDb
  after : SpaceDb

structure PairingLog where
  /-- The slot that a request has read. -/
  reads : RequestId → Option PairingSlot
  writes : List PairingWrite
  /-- The packages left in a slot, while it is occupied. -/
  packages : PairingId → ℕ

namespace PairingLog

def empty : PairingLog := ⟨fun _ => none, [], fun _ => 0⟩

/-- What a request has changed, oldest first. -/
def writesOf (h : PairingLog) (r : RequestId) : List PairingWrite :=
  h.writes.filter fun w => decide (w.request = r)

/-- The slot that a step leaves a package in. -/
def deposits (s : GroupServer) : GroupEvent → GroupServer → Option PairingId
  | .files (.server (.advance r _ _)), t =>
      match s.flights r, t.flights r with
      | some ⟨_, .completePairing pairingId _, .readyToPair _⟩, some ⟨_, _, .answered .ok⟩ =>
          some pairingId
      | _, _ => none
  | .pairElsewhere pairingId _ _, _ => some pairingId
  | _, _ => none

/-- A slot that is gone is not occupied any more. -/
def notePackages (s : GroupServer) (e : GroupEvent) (t : GroupServer) (packages : PairingId → ℕ) :
    PairingId → ℕ :=
  fun p => if (t.space.pairing.get? p).isNone then 0
    else if deposits s e t = some p then packages p + 1 else packages p

/-- What a step of a pairing's request adds to the reads and the writes. -/
def noteRequest (s : GroupServer) (e : GroupEvent) (t : GroupServer) (h : PairingLog) :
    PairingLog :=
  match e with
  | .files (.server (.advance r _ _)) =>
      match s.flights r with
      | some ⟨_, .completePairing pairingId _, stage⟩ =>
          { h with
            reads := match stage with
              | .authed _ => Function.update h.reads r (s.space.pairing.get? pairingId)
              | _ => h.reads
            writes := if t.space.devices = s.space.devices ∧
              t.space.pairing = s.space.pairing then h.writes
              else h.writes ++ [⟨r, s.space, t.space⟩] }
      | _ => h
  | _ => h

def note (s : GroupServer) (e : GroupEvent) (t : GroupServer) (h : PairingLog) : PairingLog :=
  { noteRequest s e t h with packages := notePackages s e t h.packages }

end PairingLog

/-- One transaction that registers the scanned device as an active member at the group's
epoch, and leaves the package in the slot that was open. -/
structure Completes (pairingId : PairingId) (body : PairingCompleteBody) (slot : PairingSlot)
    (before after : SpaceDb) :
    Prop where
  publicKey : slot.newDevice.publicKey = body.scannedPublicKey
  signingPublicKey : slot.newDevice.signingPublicKey = body.scannedSigningPublicKey
  registered : ∃ d ∈ after.devices, d.id = slot.newDevice.id ∧ d.publicKey = body.scannedPublicKey ∧
    d.signingPublicKey = body.scannedSigningPublicKey ∧ d.role = .member ∧ d.active = true ∧
      d.keyEpoch = before.keyEpoch
  others : ∀ d, d.id ≠ slot.newDevice.id → (d ∈ after.devices ↔ d ∈ before.devices)
  deposited : ∃ old ∈ before.pairing, old.pairingId = pairingId ∧ old.wrappedPackage = none ∧
    { old with wrappedPackage := some body.wrappedPackage } ∈ after.pairing
  otherSlots : ∀ q, q.pairingId ≠ pairingId → (q ∈ after.pairing ↔ q ∈ before.pairing)
  keyEpoch : after.keyEpoch = before.keyEpoch

namespace completePairing

theorem slotOpen_iff {pairingId : PairingId} {db : SpaceDb} :
    slotOpen pairingId db = true ↔ ∃ slot ∈ db.pairing, slot.pairingId = pairingId ∧
    slot.wrappedPackage = none := by
  simp [slotOpen]

/-- A slot that is open is not left as it is. -/
theorem pairing_deposited_ne {pairingId : PairingId} (body : PairingCompleteBody) {db : SpaceDb}
    (h : slotOpen pairingId db = true) : (deposited pairingId body db).pairing ≠ db.pairing := by
  obtain ⟨slot, hslot, hid, hopen⟩ := slotOpen_iff.mp h
  intro heq
  obtain ⟨old, _, hold⟩ :=
    mem_deposited.mp (heq ▸ hslot : slot ∈ (deposited pairingId body db).pairing)
  split_ifs at hold with hp
  · rw [hold] at hopen
    cases hopen
  · exact hp (hold ▸ hid)

/-- The batch that goes through. -/
theorem completes {pairingId : PairingId} {body : PairingCompleteBody} {slot : PairingSlot}
    {db : SpaceDb} (hkey : slot.newDevice.publicKey = body.scannedPublicKey)
    (hsign : slot.newDevice.signingPublicKey = body.scannedSigningPublicKey)
    (hg : registerGuard pairingId slot.newDevice body db = true) :
    Completes pairingId body slot db
      (deposited pairingId body (registered slot.newDevice body db)) := by
  simp only [registerGuard, Bool.and_eq_true, decide_eq_true_eq] at hg
  obtain ⟨old, hold, hid, hopen⟩ := slotOpen_iff.mp hg.1.2
  refine ⟨hkey, hsign, ?_, fun d hne => ?_, ?_, fun q hne => ?_, rfl⟩
  · exact ⟨newRow slot.newDevice body, mem_registered.mpr (Or.inl rfl), rfl, hkey, hsign, rfl, rfl,
      hg.1.1.symm⟩
  · refine Iff.trans mem_registered ⟨fun h => ?_, fun h => Or.inr ⟨h, hne⟩⟩
    rcases h with rfl | h
    · exact absurd rfl hne
    · exact h.1
  · exact ⟨old, hold, hid, hopen, mem_deposited.mpr ⟨old, hold, by rw [if_pos hid]⟩⟩
  · refine Iff.trans mem_deposited ⟨fun h => ?_, fun h => ⟨q, h, by rw [if_neg hne]⟩⟩
    obtain ⟨p, hp, he⟩ := h
    split_ifs at he with hpid
    · exact absurd (he ▸ hpid) hne
    · exact he ▸ hp

end completePairing

namespace PairingLog

/-- What the log says of a request at a stage: it has changed nothing yet, or has
completed its pairing in one step. -/
def Explains (h : PairingLog) (r : RequestId) (pairingId : PairingId) (body : PairingCompleteBody) :
    Stage → Prop
  | .answered .ok => ∃ slot before after, h.reads r = some slot ∧
  h.writesOf r = [⟨r, before, after⟩] ∧
      Completes pairingId body slot before after
  | .slotRead _ device | .readyToPair device => h.writesOf r = [] ∧ ∃ slot, h.reads r = some slot ∧
      slot.newDevice = device ∧ device.publicKey = body.scannedPublicKey ∧
      device.signingPublicKey = body.scannedSigningPublicKey
  | _ => h.writesOf r = []

/-- What a slot counts for. -/
def count (pairing : Table PairingSlot.pairingId) (p : PairingId) : ℕ :=
  (pairing.get? p).elim 0 fun slot => if slot.wrappedPackage.isSome then 1 else 0

/-- What the log says of all requests. -/
structure Kept (s : GroupServer) (h : PairingLog) : Prop where
  sound : s.Sound
  fresh : ∀ r, s.flights r = none → h.writesOf r = []
  explains : ∀ r f pairingId body, s.flights r = some f →
    f.request = .completePairing pairingId body →
    h.Explains r pairingId body f.stage
  packages : ∀ p, h.packages p = count s.space.pairing p

theorem writesOf_noteRequest_of_ne {s t : GroupServer} {h : PairingLog} {r r' : RequestId} {now : ℕ}
    {limited : Bool} (hne : r' ≠ r) :
    (noteRequest s (.files (.server (.advance r now limited))) t h).writesOf r' =
      h.writesOf r' := by
  simp only [noteRequest]
  split
  · simp only [writesOf]
    split_ifs
    · rfl
    · simp [List.filter_append, hne.symm]
  · rfl

theorem reads_noteRequest_of_ne {s t : GroupServer} {h : PairingLog} {r r' : RequestId} {now : ℕ}
    {limited : Bool} (hne : r' ≠ r) :
    (noteRequest s (.files (.server (.advance r now limited))) t h).reads r' = h.reads r' := by
  simp only [noteRequest]
  split
  · dsimp only
    split
    · rw [Function.update_of_ne hne]
    · rfl
  · rfl

theorem Explains.congr {h h' : PairingLog} {r : RequestId} {pairingId : PairingId}
    {body : PairingCompleteBody}
    {stage : Stage} (hreads : h'.reads r = h.reads r) (hwrites : h'.writesOf r = h.writesOf r)
    (hex : h.Explains r pairingId body stage) : h'.Explains r pairingId body stage := by
  unfold Explains at hex ⊢
  rw [hreads, hwrites]
  exact hex

theorem writes_noteRequest_same {s t : GroupServer} {e : GroupEvent} {h : PairingLog}
    (hspace : t.space = s.space) :
    (noteRequest s e t h).writes = h.writes := by
  unfold noteRequest
  split
  · split
    · simp [hspace]
    · rfl
  · rfl

/-- A step of a request that completes a pairing. -/
theorem Explains.next {s t : GroupServer} {h : PairingLog} {r : RequestId} {now : ℕ}
    {limited : Bool} {token : Token}
    {pairingId : PairingId} {body : PairingCompleteBody} {stage : Stage} (hs : s.Sound)
    (hf : s.flights r = some ⟨token, .completePairing pairingId body, stage⟩)
    (hspace : t.space = (completePairing.next token pairingId body s.space stage).1)
    (hex : h.Explains r pairingId body stage) :
    (noteRequest s (.files (.server (.advance r now limited))) t h).Explains r pairingId body
      (completePairing.next token pairingId body s.space stage).2 := by
  have hquiet : t.space = s.space → ∀ {stage'}, h.writesOf r = [] →
      (∀ a, stage' = .answered a → ∃ e, a = .error e) →
      stage'.device = none →
      (noteRequest s (.files (.server (.advance r now limited))) t h).Explains r pairingId body
        stage' := by
    intro hsame stage' hnone herror hdevice
    have hwrites :
        (noteRequest s (.files (.server (.advance r now limited))) t h).writesOf r = [] := by
      rw [writesOf, writes_noteRequest_same hsame]
      exact hnone
    cases stage' with
    | answered a =>
      obtain ⟨e, rfl⟩ := herror a rfl
      exact hwrites
    | slotRead auth device => cases hdevice
    | readyToPair device => cases hdevice
    | _ => exact hwrites
  cases stage with
  | received =>
    refine Stage.ofCheck_cases (P := fun stage' =>
      (noteRequest s _ t h).Explains r pairingId body stage')
      (fun e => hquiet hspace hex (fun a ha => ⟨e, (Stage.answered.inj ha).symm⟩) rfl)
        fun stage' hok => ?_
    simp only [bind_eq_ok, pure_eq_ok] at hok
    obtain ⟨auth, _, _, _, _, _, rfl⟩ := hok
    exact hquiet hspace hex (fun a ha => (by cases ha)) rfl
  | authed auth =>
    refine Stage.ofCheck_cases (P := fun stage' =>
      (noteRequest s _ t h).Explains r pairingId body stage')
      (fun e => hquiet hspace hex (fun a ha => ⟨e, (Stage.answered.inj ha).symm⟩) rfl)
        fun stage' hok => ?_
    simp only [bind_eq_ok, pure_eq_ok] at hok
    obtain ⟨device, hdevice, rfl⟩ := hok
    obtain ⟨slot, hslot, hdev, hkey, hsign⟩ := completePairing.checkSlot_ok hdevice
    refine ⟨?_, slot, ?_, hdev, hkey, hsign⟩
    · rw [writesOf, writes_noteRequest_same hspace]
      exact hex
    · simp only [noteRequest, hf, Function.update_self]
      exact hslot
  | slotRead auth device =>
    refine Stage.ofCheck_cases (P := fun stage' =>
      (noteRequest s _ t h).Explains r pairingId body stage')
      (fun e => hquiet hspace hex.1 (fun a ha => ⟨e, (Stage.answered.inj ha).symm⟩) rfl)
        fun stage' hok => ?_
    simp only [bind_eq_ok, pure_eq_ok] at hok
    obtain ⟨_, _, rfl⟩ := hok
    refine ⟨?_, ?_⟩
    · rw [writesOf, writes_noteRequest_same hspace]
      exact hex.1
    · simp only [noteRequest, hf]
      exact hex.2
  | ready auth => exact hquiet hspace hex (fun a ha => (by cases ha)) rfl
  | readyToPair device =>
    obtain ⟨hnone, slot, hslot, rfl, hkey, hsign⟩ := hex
    rcases @completePairing.finish_spec pairingId slot.newDevice body s.space hs.home with
      ⟨e, hfin⟩ | ⟨hg, _, hfin⟩
    · simp only [completePairing.next, hfin] at hspace ⊢
      exact hquiet hspace hnone (fun a ha => ⟨e, (Stage.answered.inj ha).symm⟩) rfl
    · simp only [completePairing.next, hfin] at hspace ⊢
      have hopen :
          completePairing.slotOpen pairingId
            (completePairing.registered slot.newDevice body s.space) = true := by
        simp only [completePairing.registerGuard, Bool.and_eq_true] at hg
        exact hg.1.2
      have hne :
          ¬ (t.space.devices = s.space.devices ∧ t.space.pairing = s.space.pairing) := fun heq =>
        completePairing.pairing_deposited_ne body hopen (by rw [← hspace]; exact heq.2)
      refine ⟨slot, s.space, t.space, ?_, ?_, ?_⟩
      · simp only [noteRequest, hf]
        exact hslot
      · have happend :
            (h.writes ++ [(⟨r, s.space, t.space⟩ : PairingWrite)]).filter (fun w =>
              decide (w.request = r)) =
            [⟨r, s.space, t.space⟩] := by
          rw [List.filter_append,
            show h.writes.filter (fun w => decide (w.request = r)) = [] from hnone]
          simp
        simp only [noteRequest, hf, writesOf, if_neg hne]
        exact happend
      · rw [hspace]
        exact completePairing.completes hkey hsign hg
  | answered a =>
    refine hex.congr ?_ ?_
    · simp only [noteRequest, hf]
    · rw [writesOf, writes_noteRequest_same hspace]
      rfl

theorem count_of_none {pairing : Table PairingSlot.pairingId} {p : PairingId}
    (h : pairing.get? p = none) :
    count pairing p = 0 := by rw [count, h]; rfl

theorem notePackages_same {s t : GroupServer} {e : GroupEvent} {packages : PairingId → ℕ}
    (h : ∀ p, packages p = count s.space.pairing p) (hpairing : t.space.pairing = s.space.pairing)
    (hnone : deposits s e t = none) (p : PairingId) :
    notePackages s e t packages p = count t.space.pairing p := by
  simp only [notePackages, hnone, hpairing, Option.isNone_iff_eq_none, reduceCtorEq, if_false]
  split_ifs with hget
  · exact (count_of_none hget).symm
  · exact h p

/-- A package is left in a slot that was open, and counts for one. -/
theorem notePackages_deposited {s t : GroupServer} {e : GroupEvent} {packages : PairingId → ℕ}
    {q : PairingId}
    (body : PairingCompleteBody) (db : SpaceDb) (h : ∀ p, packages p = count s.space.pairing p)
    (hsame : db.pairing = s.space.pairing) (hopen : completePairing.slotOpen q s.space = true)
    (hpairing : t.space.pairing = (completePairing.deposited q body db).pairing)
    (hsome : deposits s e t = some q)
    (p : PairingId) : notePackages s e t packages p = count t.space.pairing p := by
  have hget : t.space.pairing.get? p = (s.space.pairing.get? p).map fun slot =>
      if decide (slot.pairingId = q) then { slot with wrappedPackage := some body.wrappedPackage }
        else slot := by
    rw [hpairing, completePairing.deposited, Table.get?_update, hsame]
  obtain ⟨slot, hslot, hid, hnone⟩ := completePairing.slotOpen_iff.mp hopen
  rw [notePackages, hsome, h, count, count, hget]
  by_cases hp : p = q
  · subst hp
    rw [Table.get?_eq_some.mpr ⟨hslot, hid⟩]
    simp [hid, hnone]
  · cases hold : s.space.pairing.get? p with
    | none => rfl
    | some other =>
      have hne : other.pairingId ≠ q := fun he => hp ((Table.get?_eq_some.mp hold).2.symm.trans he)
      simp [hne, Ne.symm hp]

theorem get?_reserve {s : Server} {p q : PairingId} {device : SlotDevice} :
    (s.reserve q device).db.pairing.get? p =
      if p = q ∧
      s.db.pairing.get? q = none then some ⟨q, device, none⟩ else s.db.pairing.get? p := by
  simp only [Server.reserve, Table.upsert]
  cases hins : s.db.pairing.insert ⟨q, device, none⟩ with
  | some u =>
    have hfree := Table.get?_eq_none.mpr (Table.insert_eq_some hins).2
    rw [Option.getD_some, Table.get?_insert hins]
    exact if_congr ⟨fun he => ⟨he, hfree⟩, And.left⟩ rfl rfl
  | none =>
    obtain ⟨slot, hslot, hid⟩ := Table.insert_eq_none.mp hins
    rw [Option.getD_none, Table.update_eq_self fun _ _ => Bool.and_false _, if_neg]
    intro h
    exact Table.get?_eq_none.mp h.2 slot hslot hid

/-- The events that may write slots. -/
def touchesSlots : GroupEvent → Bool
  | .files (.server (.advance ..)) | .files (.server (.reserve ..)) | .files (.server (.release ..))
  | .pairElsewhere .. => true
  | _ => false

theorem pairing_of_untouched {s : GroupServer} {e : GroupEvent} {db : SpaceDb}
    (h : s.SpaceStep e db) (he : touchesSlots e = false) : db.pairing = s.space.pairing := by
  cases h with
  | flight => cases he
  | reserved => cases he
  | released => cases he
  | paired => cases he
  | _ => rfl

theorem deposits_of_untouched {s t : GroupServer} {e : GroupEvent} (he : touchesSlots e = false) :
    deposits s e t = none := by
  unfold deposits
  split
  · cases he
  · cases he
  · rfl

/-- The step of a request: it completes a pairing, or leaves the slots alone. -/
theorem packages_advance {s t : GroupServer} {r : RequestId} {now : ℕ} {limited : Bool}
    {packages : PairingId → ℕ} (hs : s.Sound) (h : ∀ p, packages p = count s.space.pairing p)
    (hstep : s.step (.files (.server (.advance r now limited))) = some t) (p : PairingId) :
    notePackages s (.files (.server (.advance r now limited))) t packages p =
      count t.space.pairing p := by
  obtain ⟨⟨token, request, stage⟩, hf, hspace, hflights⟩ := GroupServer.step_advance hstep
  have hstage : t.flights r =
      some ⟨token, request, (request.advance now limited token s.space stage).2⟩ := by
    rw [hflights, Function.update_self]
  have heff := @Server.Sound.effect s.files.server hs r ⟨token, request, stage⟩ now limited hf
  have hother : (∀ q body device, request = .completePairing q body → stage ≠ .readyToPair device) →
      deposits s (.files (.server (.advance r now limited))) t = none →
      notePackages s (.files (.server (.advance r now limited))) t packages p =
        count t.space.pairing p := by
    intro hnot hnone
    rcases heff.membership with ⟨hpairing, _⟩ | ⟨q, body, device, hreq, hst, _, _⟩
    · exact notePackages_same h (by rw [hspace]; exact hpairing) hnone p
    · exact absurd hst (hnot q body device hreq)
  cases request with
  | completePairing q body =>
    cases stage with
    | readyToPair device =>
      rcases @completePairing.finish_spec q device body s.space hs.home with ⟨e, hfin⟩ |
        ⟨hg, _, hfin⟩
      · refine notePackages_same h ?_ ?_ p
        · simp only [hspace, ApiRequest.advance, completePairing.next, hfin]
        · simp only [deposits, hf, hstage, ApiRequest.advance, completePairing.next, hfin]
      · have hopen : completePairing.slotOpen q s.space = true := by
          simp only [completePairing.registerGuard, Bool.and_eq_true] at hg
          exact hg.1.2
        refine notePackages_deposited body (completePairing.registered device body s.space) h rfl
          hopen ?_ ?_ p
        · simp only [hspace, ApiRequest.advance, completePairing.next, hfin]
        · simp only [deposits, hf, hstage, ApiRequest.advance, completePairing.next, hfin]
    | _ => exact hother (fun _ _ _ _ h => by cases h) (by simp only [deposits, hf])
  | _ => exact hother (fun _ _ _ hreq => (by cases hreq)) (by simp only [deposits, hf])

/-- Whatever happens, a slot has been left as many packages as it holds. -/
theorem packages_step {s t : GroupServer} {e : GroupEvent} {packages : PairingId → ℕ} (hs : s.Sound)
    (h : ∀ p, packages p = count s.space.pairing p) (hstep : s.step e = some t) (p : PairingId) :
    notePackages s e t packages p = count t.space.pairing p := by
  cases he : touchesSlots e with
  | false =>
    exact notePackages_same h (pairing_of_untouched (GroupServer.step_space hs hstep) he)
      (deposits_of_untouched he) p
  | true =>
    unfold touchesSlots at he
    split at he
    · exact packages_advance hs h hstep p
    · next q device =>
      obtain rfl := Option.some.inj hstep
      have hget := @get?_reserve s.files.server p q device
      rw [notePackages, h, count, count, hget]
      by_cases hnew : p = q ∧ s.space.pairing.get? q = none
      · obtain ⟨rfl, hfree⟩ := hnew
        simp [hfree, deposits]
      · rw [if_neg hnew]
        cases hold : s.space.pairing.get? p <;> simp [deposits]
    · next q =>
      obtain rfl := Option.some.inj hstep
      have hget : (s.files.server.release q).db.pairing.get? p =
          (s.space.pairing.get? p).filter fun slot => !decide (slot.pairingId = q) :=
            Table.get?_delete
      rw [notePackages, h, count, count, hget]
      cases hold : s.space.pairing.get? p with
      | none => rfl
      | some slot => by_cases hq : slot.pairingId = q <;> simp [Option.filter, hq, deposits]
    · next q deviceId body =>
      simp only [GroupServer.step, GroupServer.pairElsewhere] at hstep
      split_ifs at hstep with hslot
      obtain rfl := Option.some.inj hstep
      exact notePackages_deposited body _ h rfl hslot.1 rfl rfl p
    · cases he

theorem noteRequest_of_not_advance {s t : GroupServer} {e : GroupEvent} {h : PairingLog}
    (he : ∀ r now limited, e ≠ .files (.server (.advance r now limited))) :
    noteRequest s e t h = h := by
  unfold noteRequest
  split
  · exact absurd rfl (he _ _ _)
  · rfl

theorem Kept.step {s t : GroupServer} {e : GroupEvent} {h : PairingLog} (hk : Kept s h)
    (hstep : s.step e = some t) :
    Kept t (note s e t h) := by
  have hpackages := packages_step hk.sound hk.packages hstep
  by_cases hadv : ∃ r now limited, e = .files (.server (.advance r now limited))
  · obtain ⟨r, now, limited, rfl⟩ := hadv
    obtain ⟨f, hf, hspace, hflights⟩ := GroupServer.step_advance hstep
    have hother : ∀ r', r' ≠ r → t.flights r' = s.flights r' := fun r' hne => by
      rw [hflights, Function.update_of_ne hne]
    have hself : t.flights r =
        some { f with stage := (f.request.advance now limited f.token s.space f.stage).2 } := by
      rw [hflights, Function.update_self]
    refine ⟨hk.sound.step hstep, fun r' hnone => ?_, fun r' f' pairingId body hf' hreq =>
      ?_, hpackages⟩
    · have hne : r' ≠ r := fun he => by simp [he, hself] at hnone
      exact (writesOf_noteRequest_of_ne hne).trans (hk.fresh r' (hother r' hne ▸ hnone))
    · by_cases hr : r' = r
      · subst hr
        obtain rfl := Option.some.inj (hself.symm.trans hf')
        obtain ⟨token, request, stage⟩ := f
        obtain rfl : request = .completePairing pairingId body := hreq
        exact Explains.next hk.sound hf hspace (hk.explains r' _ pairingId body hf rfl)
      · exact Explains.congr (reads_noteRequest_of_ne hr) (writesOf_noteRequest_of_ne hr)
          (hk.explains r' f' pairingId body (hother r' hr ▸ hf') hreq)
  · push Not at hadv
    have hsame : noteRequest s e t h = h := noteRequest_of_not_advance hadv
    have hwrites : ∀ r, (note s e t h).writesOf r = h.writesOf r :=
      fun r => by rw [writesOf, note, hsame]; rfl
    have hreads : ∀ r, (note s e t h).reads r = h.reads r := fun r => by rw [note, hsame]
    refine ⟨hk.sound.step hstep, fun r hnone => ?_, fun r f pairingId body hf hreq => ?_, hpackages⟩
    · rcases GroupServer.step_flight hstep r with hold | ⟨_, _, _, _, hnew⟩ |
        ⟨now, limited, _, rfl, _⟩
      · exact (hwrites r).trans (hk.fresh r (hold ▸ hnone))
      · exact absurd (hnew.symm.trans hnone) (Option.some_ne_none _)
      · exact absurd rfl (hadv r now limited)
    · rcases GroupServer.step_flight hstep r with hold | ⟨_, _, _, hnone, hnew⟩ |
        ⟨now, limited, _, rfl, _⟩
      · exact Explains.congr (hreads r) (hwrites r)
          (hk.explains r f pairingId body (hold ▸ hf) hreq)
      · obtain rfl := Option.some.inj (hnew.symm.trans hf)
        exact (hwrites r).trans (hk.fresh r hnone)
      · exact absurd rfl (hadv r now limited)

end PairingLog

/-- In every run, a request to complete a pairing that is refused has changed nothing; one
that is granted has, in one transaction, registered the device of the slot it read and left
its package in the slot then open; and a slot gets one package at most while it is occupied. -/
theorem pairings_complete_at_once {groupId : GroupId} {founder : SlotDevice} {token : Token}
    {elsewhere : List DeviceId} {foreign : List MessageId} {groups : List GroupId}
    {rivals : RequestId → Option (CreateGroupRequest × CreateGroupStage)} {s : GroupServer}
    {h : PairingLog} (hfounder : founder.id ∉ elsewhere)
    (hr : Runs.Reachable (Runs.recorded GroupServer.step PairingLog.note)
      (.founded groupId founder token elsewhere foreign groups rivals, .empty) (s, h)) :
    (∀ r token pairingId body e,
      s.flights r = some ⟨token, .completePairing pairingId body, .answered (.error e)⟩ →
      h.writesOf r = []) ∧
    (∀ r token pairingId body,
      s.flights r = some ⟨token, .completePairing pairingId body, .answered .ok⟩ →
      ∃ slot before after, h.reads r = some slot ∧ h.writesOf r = [⟨r, before, after⟩] ∧
        Completes pairingId body slot before after) ∧
    ∀ p, h.packages p ≤ 1 := by
  have hstart :
      PairingLog.Kept (.founded groupId founder token elsewhere foreign groups rivals) .empty :=
    ⟨GroupServer.sound_founded hfounder, fun _ _ => rfl,
      fun _ _ _ _ hf => (Option.some_ne_none _ hf.symm).elim,
      fun _ => rfl⟩
  have hk : PairingLog.Kept s h :=
    hr.recorded_invariant hstart fun (s : GroupServer) h (e : GroupEvent) t hk _ hstep =>
      hk.step hstep
  refine ⟨fun r token pairingId body e hf => hk.explains r _ pairingId body hf rfl,
    fun r token pairingId body hf => hk.explains r _ pairingId body hf rfl, fun p => ?_⟩
  rw [hk.packages, PairingLog.count]
  cases s.space.pairing.get? p with
  | none => exact Nat.zero_le 1
  | some slot =>
    show (if slot.wrappedPackage.isSome then 1 else 0) ≤ 1
    split_ifs <;> omega

theorem pairings_complete_at_once_linking :
    ∃ s : GroupServer × PairingLog, ∃ slot before after, s.2.reads 1 = some slot ∧
    s.2.writesOf 1 = [⟨1, before, after⟩] ∧
      Completes 52 (GroupServer.linkBody 52 ⟨2, 102, none, false⟩ 12) slot before after := by
  have hrun :
      (Runs.replay (Runs.recorded GroupServer.step PairingLog.note) (GroupServer.start,
        PairingLog.empty)
      (GroupServer.linking 1 52 ⟨2, 102, none, false⟩ 12)).any (fun s => decide (s.1.flights 1 =
        some ⟨11, .completePairing 52 (GroupServer.linkBody 52 ⟨2, 102, none, false⟩ 12),
          .answered .ok⟩)) = true := by
    decide +kernel
  obtain ⟨s, hs, hlinked⟩ := Runs.exists_reachable_of_replay hrun
  have hnew : (1 : DeviceId) ∉ ([] : List DeviceId) := List.not_mem_nil
  obtain ⟨_, hok, _⟩ :=
    @pairings_complete_at_once 7 ⟨1, 101, none, false⟩ 11 [] [] [] (fun _ => none) s.1 s.2 hnew hs
  exact ⟨s, hok 1 11 52 _ hlinked⟩

end SendSelf

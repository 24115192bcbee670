import SendSelf.Library.Revisions
import SendSelf.Library.Runs
import SendSelf.Vault.Clients
import SendSelf.Vault.Purging
import SendSelf.Vault.Trees

/-!
# No edit is lost

Clients create, edit and re-seal items from any entry they ever held, send requests
again, and take in answers however late. The accepted edits of an item form a single
chain, and all metadata that was ever stored at one of its revisions is the same.
-/
namespace SendSelf

namespace VaultDb

/-- The revision and the metadata of an item that is alive. -/
def current (db : VaultDb) (id : ItemId) : Option (ℕ × Option VaultItemMeta) :=
  (db.vaultItem id).map fun r => (r.revision, r.meta.map Sealed.payload)

theorem current_eq_some {db : VaultDb} {id : ItemId} {x : ℕ × Option VaultItemMeta} :
    db.current id = some x ↔ ∃ r ∈ db.items, r.id = id ∧ r.live = true ∧
    (r.revision, r.meta.map Sealed.payload) = x := by
  rw [current, Option.map_eq_some_iff]
  constructor
  · intro ⟨r, hr, hx⟩
    obtain ⟨hmem, hid, hlive⟩ := mem_vaultItem.mp hr
    exact ⟨r, hmem, hid, hlive, hx⟩
  · intro ⟨r, hmem, hid, hlive, hx⟩
    exact ⟨r, mem_vaultItem.mpr ⟨hmem, hid, hlive⟩, hx⟩

section Changing

variable {db : VaultDb} {id : ItemId} {guard : VaultItem → Bool} {f : VaultItem → VaultItem}

theorem vaultItem_change_of_ne {x : ItemId} (hx : x ≠ id) :
    (db.change id guard f).1.vaultItem x = db.vaultItem x := by
  rw [vaultItem, vaultItem, get?_change]
  cases hget : db.items.get? x with
  | none => rfl
  | some r =>
    have hid : r.id ≠ id := fun hid => hx ((Table.get?_eq_some.mp hget).2.symm.trans hid)
    rw [Option.map_some, if_neg (by simp [hid])]

theorem vaultItem_change_none (h : (db.vaultItem id).filter guard = none) (x : ItemId) :
    (db.change id guard f).1.vaultItem x = db.vaultItem x := by
  by_cases hx : x = id
  · subst hx
    rw [vaultItem, get?_change]
    cases hget : db.items.get? x with
    | none => rw [vaultItem, hget]; rfl
    | some r =>
      obtain ⟨hmem, hid⟩ := Table.get?_eq_some.mp hget
      rw [Option.map_some, if_neg, vaultItem, hget]
      intro hhit
      simp only [Bool.and_eq_true, decide_eq_true_eq] at hhit
      have hsome := Option.filter_eq_some_iff.mpr ⟨mem_vaultItem.mpr ⟨hmem, hid, hhit.1.2⟩, hhit.2⟩
      exact absurd (h.symm.trans hsome) (Option.some_ne_none r).symm
  · exact vaultItem_change_of_ne hx

theorem vaultItem_change_some {r : VaultItem} (h : (db.vaultItem id).filter guard = some r)
    (hf : (f r).live = r.live) :
    (db.change id guard f).1.vaultItem id = some (stamp (db.seq + 1) f r) := by
  obtain ⟨hitem, hguard⟩ := Option.filter_eq_some_iff.mp h
  obtain ⟨hmem, hid, hlive⟩ := mem_vaultItem.mp hitem
  rw [vaultItem, get?_change, Table.get?_eq_some.mpr ⟨hmem, hid⟩, Option.map_some,
    if_pos (by simp [hid, hlive, hguard])]
  exact if_pos (hf.trans hlive)

end Changing

/-- What `createVaultItem` writes, and what it answers. -/
theorem current_create (item : NewItem) (now : ℕ) (db : VaultDb) :
    ((db.create item now).2 = none ∧ (db.create item now).1.current = db.current) ∨
    ((∀ r ∈ db.items, r.id ≠ item.id) ∧
      (db.create item now).1.current item.id = some (1, some item.meta.payload) ∧
      (∀ x, x ≠ item.id → (db.create item now).1.current x = db.current x) ∧
      ∀ row, (db.create item now).2 = some row → row ∈ (db.create item now).1.items ∧
        row.live = true ∧
        row.meta = some item.meta) := by
  unfold create
  dsimp only
  split_ifs with hguard
  · split
    · rename_i items hinsert
      refine Or.inr ⟨(Table.insert_eq_some hinsert).2, ?_, fun x hx => ?_, fun row hrow => ?_⟩
      · rw [current, vaultItem]
        dsimp only
        have heq : item.id = (item.row db.nextVaultSeq.seq now).id := rfl
        rw [Table.get?_insert hinsert, if_pos heq]
        rfl
      · rw [current, vaultItem]
        dsimp only
        have hne : x ≠ (item.row db.nextVaultSeq.seq now).id := hx
        rw [Table.get?_insert hinsert, if_neg hne]
        rfl
      · obtain rfl := Option.some.inj hrow
        exact ⟨(Table.get?_eq_some.mp ((Table.get?_insert hinsert).trans (if_pos rfl))).1, rfl, rfl⟩
    · exact Or.inl ⟨rfl, rfl⟩
  · exact Or.inl ⟨rfl, rfl⟩

/-- What `updateVaultItem` writes, and what it answers. -/
theorem current_update (id : ItemId) (revision : ℕ) (changes : ItemChanges) (now : ℕ)
    (db : VaultDb) :
    ((db.update id revision changes now).2 = none ∧
      (db.update id revision changes now).1.current = db.current) ∨
    ∃ r row, (r ∈ db.items ∧ r.id = id ∧ r.live = true ∧ r.revision = revision) ∧
      (db.update id revision changes now).2 = some row ∧ row.id = id ∧ row.revision = revision + 1 ∧
      row.meta = changes.sealing.elim r.meta (fun s => some s.2.1) ∧
      row ∈ (db.update id revision changes now).1.items ∧ row.live = true ∧
      (db.update id revision changes now).1.current id =
        some (revision + 1, row.meta.map Sealed.payload) ∧
      ∀ x, x ≠ id → (db.update id revision changes now).1.current x = db.current x := by
  unfold update
  cases hrow : (db.vaultItem id).filter fun r =>
    decide (r.revision = revision) && changes.guard id db with
  | none =>
    refine Or.inl ⟨by rw [change_answer, hrow]; rfl, funext fun x => ?_⟩
    rw [current, vaultItem_change_none hrow, current]
  | some r =>
    obtain ⟨hitem, hguard⟩ := Option.filter_eq_some_iff.mp hrow
    obtain ⟨hmem, hid, hlive⟩ := mem_vaultItem.mp hitem
    simp only [Bool.and_eq_true, decide_eq_true_eq] at hguard
    have hafter := vaultItem_change_some (f := changes.apply now) hrow rfl
    refine Or.inr ⟨r, stamp (db.seq + 1) (changes.apply now) r, ⟨hmem, hid, hlive, hguard.1⟩, by
      rw [change_answer, hrow]; rfl,
      hid, congrArg (· + 1) hguard.1, rfl, (mem_vaultItem.mp hafter).1, hlive, ?_, fun x hx => ?_⟩
    · rw [current, hafter, ← hguard.1]
      rfl
    · rw [current, vaultItem_change_of_ne hx, current]

/-- What is sealed again is what is there already. -/
theorem current_reseal (keyEpoch now : ℕ) (items : List ResealedItem) (db : VaultDb)
    (hsame : ∀ item ∈ items, ∀ v, db.current item.id = some (item.revision, v) →
      v = some item.meta.payload) :
    (db.reseal keyEpoch items now).current = db.current := by
  induction items generalizing db with
  | nil => rfl
  | cons item items ih =>
    have hone : (resealOne keyEpoch now db item).current = db.current := by
      funext x
      unfold resealOne
      cases hrow : (db.vaultItem item.id).filter fun r => decide (r.revision = item.revision) &&
          r.keyEpoch.any fun epoch => decide (epoch < keyEpoch) with
      | none => rw [current, vaultItem_change_none hrow, current]
      | some r =>
        obtain ⟨hitem, hguard⟩ := Option.filter_eq_some_iff.mp hrow
        simp only [Bool.and_eq_true, decide_eq_true_eq] at hguard
        by_cases hx : x = item.id
        · subst hx
          have hv :=
            hsame item List.mem_cons_self (r.meta.map Sealed.payload)
              (by rw [current, hitem, ← hguard.1]; rfl)
          rw [current, vaultItem_change_some hrow rfl, current, hitem, Option.map_some,
            Option.map_some, hv]
          rfl
        · rw [current, vaultItem_change_of_ne hx, current]
    refine (ih _ fun item' hitem' v hv => ?_).trans hone
    rw [hone] at hv
    exact hsame item' (List.mem_cons_of_mem _ hitem') v hv

/-- A purge drops what it buries. -/
theorem Purged.current {gone : ItemId → Prop} {db db' : VaultDb} (h : db.Purged gone db')
    {id : ItemId}
    {x : ℕ × Option VaultItemMeta} (hx : db'.current id = some x) : db.current id = some x := by
  obtain ⟨r, hr, hid, hlive, hx⟩ := current_eq_some.mp hx
  exact current_eq_some.mpr ⟨r, ((h.live r).mp ⟨hr, hlive⟩).1, hid, hlive, hx⟩

theorem current_forget {forgottenBefore : ℕ} {db : VaultDb} {id : ItemId}
    {x : ℕ × Option VaultItemMeta}
    (hx : (db.forget forgottenBefore).current id = some x) : db.current id = some x := by
  obtain ⟨r, hr, hid, hlive, hx⟩ := current_eq_some.mp hx
  exact current_eq_some.mpr ⟨r, (Table.mem_delete.mp hr).1, hid, hlive, hx⟩

end VaultDb

inductive VaultCreation where
  | folder (name : String)
  | note (title excerpt : String) (content : SealedContent)
  | file (name mime : String) (content : SealedContent)

def VaultCreation.request (keyring : Keyring) (id : ItemId) (parentId : Option ItemId) (iv : Iv) :
    VaultCreation → Option (CreateVaultItemRequest × VaultItemMeta)
  | .folder name => createVaultFolder keyring id parentId name iv
  | .note title excerpt content => createVaultNote keyring id parentId title excerpt content iv
  | .file name mime content => createVaultFile keyring id parentId name mime content iv

inductive VaultEdit where
  | save (title excerpt : String) (content : SealedContent)
  | rename (name : String)
  | move (parentId : Option ItemId)
  | trash (trashed parentVisible : Bool)

def VaultEdit.request (keyring : Keyring) (entry : VaultEntry) (iv : Iv) :
    VaultEdit → Option (UpdateVaultItemRequest × Option VaultItemMeta)
  | .save title excerpt content => updateVaultNote keyring entry title excerpt content iv
  | .rename name => renameVaultItem keyring entry name iv
  | .move parentId => some (moveVaultItem entry parentId)
  | .trash trashed parentVisible => some (setVaultItemTrashed entry trashed parentVisible)

/-- A request that was sent, the call it became, and what its answer will be shown as. -/
structure VaultOp where
  request : VaultRequest
  call : ℕ
  «meta» : Option VaultItemMeta

structure VaultWorld where
  server : VaultServer
  /-- The entries that some client ever held. -/
  entries : List VaultEntry
  ops : List VaultOp
  /-- History: the live rows that were ever stored. -/
  stored : List VaultItem
  /-- History: the accepted updates. -/
  edits : List (Edit ItemId)

inductive VaultWorldEvent where
  | create (keyring : Keyring) (id : ItemId) (parentId : Option ItemId) (iv : Iv)
      (creation : VaultCreation)
  | edit (keyring : Keyring) (entry : VaultEntry) (iv : Iv) (edit : VaultEdit)
  | reseal (keyring : Keyring) (entries : List VaultEntry) (iv : ItemId → Iv) (round : ℕ)
  | delete (id : ItemId)
  | cleanUp
  /-- A request is sent again. -/
  | again (i : ℕ)
  /-- A record that was read at some time is opened. -/
  | read (keyring : Keyring) (known : Option VaultEntry) (record : VaultItem)
  /-- The answer to a request arrives. -/
  | arrive (i : ℕ)
  | server (event : VaultEvent)

/-- What the handler was called with. -/
def VaultJob.request : VaultJob → VaultRequest
  | .create req _ => .create req
  | .update id req _ => .update id req
  | .reseal req _ => .reseal req
  | .delete id _ => .delete id
  | .cleanUp _ => .cleanUp

/-- A request comes from a client, not by itself. -/
def VaultEvent.isReceive : VaultEvent → Bool
  | .receive _ => true
  | _ => false

/-- The record that a request is answered with. -/
def VaultJob.answer : VaultJob → Option VaultItem
  | .create _ (.answered (.ok row)) => some row
  | .update _ _ (.answered (.ok row)) => some row
  | _ => none

/-- The update that a step carried out. -/
def VaultJob.accepted : VaultJob → VaultJob → List (Edit ItemId)
  | .update id req (.ready _), .update _ _ (.answered (.ok row)) =>
    [⟨id, req.revision, row.revision⟩]
  | _, _ => []

namespace VaultWorld

def send (w : VaultWorld) (request : VaultRequest) («meta» : Option VaultItemMeta) :
    Option VaultWorld :=
  (w.server.step (.receive request)).map fun server =>
    { w with server, ops := w.ops ++ [⟨request, w.server.calls.length, «meta»⟩] }

def accepted (before after : VaultServer) : VaultEvent → List (Edit ItemId)
  | .run i _ _ => match before.calls[i]?, after.calls[i]? with
      | some c, some c' => VaultJob.accepted c.job c'.job
      | _, _ => []
  | _ => []

def serve (w : VaultWorld) (event : VaultEvent) : Option VaultWorld :=
  (w.server.step event).map fun server =>
    { w with
      server
      stored := w.stored ++ server.db.items.select VaultItem.live
      edits := w.edits ++ accepted w.server server event }

def step (w : VaultWorld) : VaultWorldEvent → Option VaultWorld
  | .create keyring id parentId iv creation => do
      let (req, «meta») ← creation.request keyring id parentId iv
      w.send (.create req) (some «meta»)
  | .edit keyring entry iv edit => do
      let (req, «meta») ← edit.request keyring entry iv
      if entry ∈ w.entries then w.send (.update entry.record.id req) «meta» else none
  | .reseal keyring entries iv round => do
      let req ← resealVault keyring iv entries round
      if entries ⊆ w.entries then w.send (.reseal req) none else none
  | .delete id => w.send (.delete id) none
  | .cleanUp => w.send .cleanUp none
  | .again i => do
      let op ← w.ops[i]?
      w.send op.request op.meta
  | .read keyring known record =>
      if record ∈ w.stored ∧ ∀ k ∈ known, k ∈ w.entries ∧ k.record.id = record.id then
        some { w with entries := w.entries ++ [openRecord keyring known record] }
      else none
  | .arrive i => do
      let op ← w.ops[i]?
      let row ← ((w.server.calls[op.call]?).bind fun c => c.job.answer)
      return { w with entries := w.entries ++ [⟨row, op.meta⟩] }
  | .server event => if event.isReceive then none else w.serve event

def new : VaultWorld := ⟨.new, [], [], [], []⟩

/-- Ids are drawn at random: those of forgotten items are not used again. -/
def FreshIds (w : VaultWorld) : VaultWorldEvent → Prop
  | .server event => w.server.FreshIds event
  | _ => True

end VaultWorld

/-- The metadata that was stored at a revision. -/
def Written (stored : List VaultItem) (id : ItemId) (revision : ℕ)
    («meta» : Option VaultItemMeta) : Prop :=
  ∃ q ∈ stored, q.id = id ∧ q.revision = revision ∧ q.meta.map Sealed.payload = «meta»

namespace UpdateVaultItemRequest

/-- The item was read at the revision that the request names. -/
def Read (req : UpdateVaultItemRequest) (stored : List VaultItem) (id : ItemId)
    (item : VaultItem) : Prop :=
  item ∈ stored ∧ item.id = id ∧ item.revision = req.revision

/-- The metadata to be set is the request's. -/
def Sets (req : UpdateVaultItemRequest) (sealing : Option (ℕ × MetaCiphertext × Iv)) : Prop :=
  sealing.map (fun s => s.2.1) = req.meta

/-- The answer holds the request's metadata, or what was there if it has none. -/
def Answers (req : UpdateVaultItemRequest) (stored : List VaultItem) (id : ItemId)
    (row : VaultItem) : Prop :=
  row ∈ stored ∧ match req.meta with
    | some c => row.meta = some c
    | none => Written stored id req.revision (row.meta.map Sealed.payload)

def StageKept (req : UpdateVaultItemRequest) (stored : List VaultItem) (id : ItemId) :
    UpdateStage → Prop
  | .received => True
  | .authed _ => True
  | .moving _ item _ => req.Read stored id item
  | .claiming item sealing _ => req.Read stored id item ∧ req.Sets sealing
  | .sized item sealing _ _ => req.Read stored id item ∧ req.Sets sealing
  | .ready c => req.Sets c.sealing
  | .answered a => ∀ row, a = .ok row → req.Answers stored id row

end UpdateVaultItemRequest

/-- What is sealed again was read at the revision it names. -/
def VaultResealRequest.Kept (req : VaultResealRequest) (stored : List VaultItem) : Prop :=
  ∀ item ∈ req.items, Written stored item.id item.revision (some item.meta.payload)

def VaultJob.Kept (stored : List VaultItem) : VaultJob → Prop
  | .create req stage => ∀ row, stage = .answered (.ok row) → row ∈ stored ∧
  row.meta = some req.meta
  | .update id req stage => req.StageKept stored id stage
  | .reseal req _ => req.Kept stored
  | _ => True

def VaultOp.Kept (stored : List VaultItem) (op : VaultOp) : Prop :=
  match op.request with
  | .create req => op.meta = some req.meta.payload
  | .update id req => ∀ p, op.meta = some p → match req.meta with
      | some c => c.payload = p
      | none => Written stored id req.revision (some p)
  | .reseal req => req.Kept stored
  | _ => True

section Monotone

variable {stored stored' : List VaultItem} (hsub : stored ⊆ stored')
include hsub

theorem Written.mono {id : ItemId} {revision : ℕ} {«meta» : Option VaultItemMeta}
    (h : Written stored id revision «meta») : Written stored' id revision «meta» := by
  obtain ⟨q, hq, hrest⟩ := h
  exact ⟨q, hsub hq, hrest⟩

theorem UpdateVaultItemRequest.Answers.mono {req : UpdateVaultItemRequest} {id : ItemId}
    {row : VaultItem} (h : req.Answers stored id row) : req.Answers stored' id row := by
  refine ⟨hsub h.1, ?_⟩
  have hmeta := h.2
  split at hmeta
  · exact hmeta
  · exact hmeta.mono hsub

theorem UpdateVaultItemRequest.StageKept.mono {req : UpdateVaultItemRequest} {id : ItemId}
    {stage : UpdateStage} (h : req.StageKept stored id stage) : req.StageKept stored' id stage := by
  cases stage with
  | received => trivial
  | authed groupKeyEpoch => trivial
  | moving groupKeyEpoch item parent => exact ⟨hsub h.1, h.2⟩
  | claiming item sealing key => exact ⟨⟨hsub h.1.1, h.1.2⟩, h.2⟩
  | sized item sealing key size => exact ⟨⟨hsub h.1.1, h.1.2⟩, h.2⟩
  | ready c => exact h
  | answered a => exact fun row hrow => (h row hrow).mono hsub

theorem VaultResealRequest.Kept.mono {req : VaultResealRequest} (h : req.Kept stored) :
    req.Kept stored' :=
  fun item hitem => (h item hitem).mono hsub

theorem VaultJob.Kept.mono {job : VaultJob} (h : job.Kept stored) : job.Kept stored' := by
  cases job with
  | create req stage => exact fun row hrow => ⟨hsub (h row hrow).1, (h row hrow).2⟩
  | update id req stage => exact UpdateVaultItemRequest.StageKept.mono hsub h
  | reseal req stage => exact VaultResealRequest.Kept.mono hsub h
  | delete id stage => trivial
  | cleanUp stage => trivial

theorem VaultOp.Kept.mono {op : VaultOp} (h : op.Kept stored) : op.Kept stored' := by
  obtain ⟨request, call, «meta»⟩ := op
  cases request with
  | create req => exact h
  | update id req =>
    intro p hp
    have hmeta := h p hp
    split at hmeta
    · exact hmeta
    · exact hmeta.mono hsub
  | reseal req => exact VaultResealRequest.Kept.mono hsub h
  | delete id => trivial
  | cleanUp => trivial

end Monotone

namespace UpdateVaultItemRequest

variable {stored : List VaultItem} {id : ItemId} {req : UpdateVaultItemRequest} {item : VaultItem}

theorem requireField_eq_ok {α : Type} {message : String} {value : Option α} {a : α} :
    requireField message value = .ok a ↔ value = some a := by
  cases value <;> simp [requireField]

theorem sets_of_checkSealing {groupKeyEpoch : ℕ} {sealing : Option (ℕ × MetaCiphertext × Iv)}
    (h : updateVaultItem.checkSealing req groupKeyEpoch = .ok sealing) : req.Sets sealing := by
  unfold updateVaultItem.checkSealing at h
  split_ifs at h with hany
  · simp only [bind_eq_ok, pure_eq_ok, requireField_eq_ok] at h
    obtain ⟨keyEpoch, _, c, hc, metaIv, _, rfl⟩ := h
    exact hc.symm
  · rw [pure_eq_ok] at h
    simp only [not_or, Option.not_isSome_iff_eq_none] at hany
    rw [← h, Sets, hany.1]
    rfl

/-- Nothing is set, so the answer is the item as it was read. -/
theorem answers_of_read (hread : req.Read stored id item) (hnone : req.meta = none) :
    req.Answers stored id item := by
  refine ⟨hread.1, ?_⟩
  rw [hnone]
  exact ⟨item, hread.1, hread.2.1, hread.2.2, rfl⟩

theorem prepare_kept (hread : req.Read stored id item) {c : VaultDb.ItemChanges}
    (hsets : req.Sets c.sealing) :
    req.StageKept stored id (updateVaultItem.prepare item c) := by
  unfold updateVaultItem.prepare
  split_ifs with hnothing
  · intro row hrow
    obtain rfl := Except.ok.inj hrow
    subst hnothing
    exact answers_of_read hread hsets.symm
  · exact hsets

theorem afterPlace_kept (hread : req.Read stored id item) (groupKeyEpoch now : ℕ) :
    req.StageKept stored id (updateVaultItem.afterPlace req groupKeyEpoch now item) := by
  refine orAnswer_cases (fun e row hrow => absurd hrow (by simp)) fun stage hstage => ?_
  simp only [bind_eq_ok] at hstage
  obtain ⟨sealing, hsealing, content, _, hstage⟩ := hstage
  have hsets := sets_of_checkSealing hsealing
  cases content with
  | none =>
    obtain rfl := Except.ok.inj hstage
    exact prepare_kept hread hsets
  | some key =>
    obtain rfl := Except.ok.inj hstage
    exact ⟨hread, hsets⟩

theorem afterRead_kept (hitem : item ∈ stored) (hid : item.id = id) (groupKeyEpoch now : ℕ) :
    req.StageKept stored id (updateVaultItem.afterRead id req groupKeyEpoch now item) := by
  unfold updateVaultItem.afterRead
  split_ifs with hrevision
  · exact fun row hrow => absurd hrow (by simp)
  · have hread : req.Read stored id item := ⟨hitem, hid, not_not.mp hrevision⟩
    split
    · split_ifs
      · exact fun row hrow => absurd hrow (by simp)
      · exact hread
    · exact afterPlace_kept hread groupKeyEpoch now

end UpdateVaultItemRequest

namespace VaultDb

/-- The live rows. -/
def snapshot (db : VaultDb) : List VaultItem := db.items.select VaultItem.live

theorem mem_snapshot {db : VaultDb} {q : VaultItem} :
    q ∈ db.snapshot ↔ q ∈ db.items ∧ q.live = true := Table.mem_select

end VaultDb

section Handlers

variable {l : Ledger ItemId (Option VaultItemMeta)} {stored : List VaultItem} {db : VaultDb}
    {m : VaultMoment}

/-- Nothing is written. -/
theorem change_same {now : ItemId → Option (ℕ × Option VaultItemMeta)} (hnow : l.now = now) :
    Ledger.Change l now l.edits :=
  .drop fun k x hx => by rw [hnow]; exact hx

theorem create_check {c : Except ApiError CreateStage}
    (h : ∀ stage, c = .ok stage → ∀ row, stage ≠ .answered (.ok row)) :
    ∀ row, orAnswer (.answered <| .error ·) c ≠ .answered (.ok row) :=
  orAnswer_cases (P := fun stage : CreateStage => ∀ row, stage ≠ .answered (.ok row))
    (fun e row => by simp) h

theorem update_check {id : ItemId} {req : UpdateVaultItemRequest} {c : Except ApiError UpdateStage}
    (h : ∀ stage, c = .ok stage → req.StageKept stored id stage) :
    req.StageKept stored id (orAnswer (.answered <| .error ·) c) :=
  orAnswer_cases (P := req.StageKept stored id) (fun e row hrow => absurd hrow (by simp)) h

theorem create_keeps {req : CreateVaultItemRequest} {stage : CreateStage}
    (hnow : l.now = db.current)
    (hhere : db.snapshot ⊆ stored) (hkept : (VaultJob.create req stage).Kept stored)
    (hfree : ∀ keyEpoch size, stage = .ready keyEpoch size → (∀ r ∈ db.items, r.id ≠ req.id) →
      ∀ r v, ¬ l.written req.id r v) :
    Ledger.Change l (createVaultItem.next req m db stage).1.current l.edits ∧
      (VaultJob.create req (createVaultItem.next req m db stage).2).Kept
        (stored ++ (createVaultItem.next req m db stage).1.snapshot) := by
  have hplace : ∀ {keyEpoch row},
      createVaultItem.afterPlace req keyEpoch ≠ .answered (.ok row) := by
    intro keyEpoch row
    unfold createVaultItem.afterPlace
    split_ifs <;> simp
  cases stage with
  | received =>
    refine ⟨change_same hnow,
      fun row hrow => absurd hrow (create_check (fun stage hstage => ?_) row)⟩
    simp only [bind_eq_ok, pure_eq_ok] at hstage
    obtain ⟨_, _, keyEpoch, _, rfl⟩ := hstage
    exact fun row => by simp
  | authed keyEpoch =>
    refine ⟨change_same hnow, fun row hrow => ?_⟩
    dsimp only [createVaultItem.next] at hrow
    split at hrow
    · rename_i existing hexisting
      split_ifs at hrow with hretried
      · obtain rfl := Except.ok.inj (CreateStage.answered.inj hrow)
        obtain ⟨hmem, _, hlive⟩ := VaultDb.mem_vaultItem.mp hexisting
        rw [createVaultItem.retried, decide_eq_true_eq] at hretried
        exact ⟨List.mem_append_left _ (hhere (VaultDb.mem_snapshot.mpr ⟨hmem, hlive⟩)), hretried.1⟩
      · cases hrow
    · split_ifs at hrow
      exact absurd hrow hplace
  | unused keyEpoch =>
    refine ⟨change_same hnow,
      fun row hrow => absurd hrow (create_check (fun stage hstage => ?_) row)⟩
    simp only [bind_eq_ok, pure_eq_ok] at hstage
    obtain ⟨_, _, rfl⟩ := hstage
    exact fun row => hplace
  | placed keyEpoch =>
    refine ⟨change_same hnow,
      fun row hrow => absurd hrow (create_check (fun stage hstage => ?_) row)⟩
    simp only [bind_eq_ok, pure_eq_ok] at hstage
    obtain ⟨size, _, rfl⟩ := hstage
    exact fun row => by simp
  | sized keyEpoch size =>
    refine ⟨change_same hnow,
      fun row hrow => absurd hrow (create_check (fun stage hstage => ?_) row)⟩
    split at hstage
    · simp only [bind_eq_ok, pure_eq_ok] at hstage
      obtain ⟨_, _, rfl⟩ := hstage
      exact fun row => by simp
    · obtain rfl := pure_eq_ok.mp hstage
      exact fun row => by simp
  | ready keyEpoch size =>
    dsimp only [createVaultItem.next]
    rcases VaultDb.current_create (createVaultItem.item req keyEpoch size) m.now db with
      ⟨hnone, hsame⟩ | ⟨hnew, hself, hother, hrow⟩
    · refine ⟨change_same (hnow.trans hsame.symm), fun row hrow => ?_⟩
      rw [hnone] at hrow
      cases hrow
    · refine ⟨.create (hfree keyEpoch size rfl hnew) hself fun x hx =>
        (hother x hx).trans (by rw [hnow]), fun row hans => ?_⟩
      split at hans
      · rename_i row' hrow'
        obtain rfl := Except.ok.inj (CreateStage.answered.inj hans)
        obtain ⟨hmem, hlive, hmeta⟩ := hrow _ hrow'
        exact ⟨List.mem_append_right _ (VaultDb.mem_snapshot.mpr ⟨hmem, hlive⟩), hmeta⟩
      · cases hans
  | refused =>
    exact ⟨change_same hnow, fun row hrow => absurd hrow (by simp [createVaultItem.next])⟩
  | answered a => exact ⟨change_same hnow, VaultJob.Kept.mono (List.subset_append_left ..) hkept⟩

theorem update_keeps {id : ItemId} {req : UpdateVaultItemRequest} {stage : UpdateStage}
    (hnow : l.now = db.current)
    (hhere : db.snapshot ⊆ stored) (hkept : (VaultJob.update id req stage).Kept stored) :
    Ledger.Change l (updateVaultItem.next id req m db stage).1.current
        (l.edits ++
          VaultJob.accepted (.update id req stage)
            (.update id req (updateVaultItem.next id req m db stage).2)) ∧
      (VaultJob.update id req (updateVaultItem.next id req m db stage).2).Kept
        (stored ++ (updateVaultItem.next id req m db stage).1.snapshot) := by
  have hsub : stored ⊆ stored ++ db.snapshot := List.subset_append_left ..
  have hsame : Ledger.Change l db.current (l.edits ++ []) := by
    rw [List.append_nil]
    exact change_same hnow
  cases stage with
  | received =>
    refine ⟨hsame, update_check fun stage hstage => ?_⟩
    simp only [bind_eq_ok, pure_eq_ok] at hstage
    obtain ⟨_, _, rfl⟩ := hstage
    trivial
  | authed groupKeyEpoch =>
    refine ⟨hsame, ?_⟩
    dsimp only [updateVaultItem.next]
    split
    · exact fun row hrow => absurd hrow (by simp)
    · rename_i item hitem
      obtain ⟨hmem, hid, hlive⟩ := VaultDb.mem_vaultItem.mp hitem
      exact UpdateVaultItemRequest.StageKept.mono hsub (UpdateVaultItemRequest.afterRead_kept
        (hhere (VaultDb.mem_snapshot.mpr ⟨hmem, hlive⟩)) hid groupKeyEpoch m.now)
  | moving groupKeyEpoch item parent =>
    refine ⟨hsame, update_check fun stage hstage => ?_⟩
    simp only [bind_eq_ok, pure_eq_ok] at hstage
    obtain ⟨_, _, rfl⟩ := hstage
    exact UpdateVaultItemRequest.StageKept.mono hsub
      (UpdateVaultItemRequest.afterPlace_kept hkept groupKeyEpoch m.now)
  | claiming item sealing key =>
    refine ⟨hsame, update_check fun stage hstage => ?_⟩
    simp only [bind_eq_ok, pure_eq_ok] at hstage
    obtain ⟨size, _, rfl⟩ := hstage
    exact UpdateVaultItemRequest.StageKept.mono hsub hkept
  | sized item sealing key size =>
    refine ⟨hsame, update_check fun stage hstage => ?_⟩
    simp only [bind_eq_ok, pure_eq_ok] at hstage
    obtain ⟨_, _, rfl⟩ := hstage
    exact UpdateVaultItemRequest.StageKept.mono hsub
      (UpdateVaultItemRequest.prepare_kept hkept.1 hkept.2)
  | ready c =>
    dsimp only [updateVaultItem.next]
    rcases VaultDb.current_update id req.revision c m.now db with ⟨hnone, hcurrent⟩ |
      ⟨r, row, ⟨hmem, hid, hlive, hrevision⟩, hrow, hrid, hrrev, hmeta, hrmem, hrlive,
        hself, hother⟩
    · rw [hnone]
      refine ⟨?_, fun row hrow => absurd hrow (by simp)⟩
      rw [hcurrent]
      exact hsame
    · rw [hrow]
      have hbefore : l.now id = some (req.revision, r.meta.map Sealed.payload) := by
        rw [hnow]
        exact VaultDb.current_eq_some.mpr ⟨r, hmem, hid, hlive, by rw [hrevision]⟩
      refine ⟨?_, fun row' hrow' => ?_⟩
      · dsimp only [VaultJob.accepted]
        rw [hrrev]
        exact .edit hbefore hself fun x hx => (hother x hx).trans (by rw [hnow])
      · obtain rfl := Except.ok.inj hrow'
        refine ⟨List.mem_append_right _ (VaultDb.mem_snapshot.mpr ⟨hrmem, hrlive⟩), ?_⟩
        have hsets : c.sealing.map (fun s => s.2.1) = req.meta := hkept
        cases hsealing : c.sealing with
        | none =>
          rw [hsealing] at hsets hmeta
          rw [← hsets]
          exact ⟨r, List.mem_append_left _ (hhere (VaultDb.mem_snapshot.mpr ⟨hmem, hlive⟩)), hid,
            hrevision, by rw [hmeta]; rfl⟩
        | some s =>
          rw [hsealing] at hsets hmeta
          rw [← hsets]
          exact hmeta
  | answered a => exact ⟨hsame, fun row hrow => (hkept row hrow).mono hsub⟩

theorem reseal_keeps {req : VaultResealRequest} {stage : ResealStage} (hnow : l.now = db.current)
    (hkept : ∀ item ∈ req.items, ∀ v, l.now item.id = some (item.revision, v) →
      v = some item.meta.payload) :
    Ledger.Change l (resealVaultItems.next req m db stage).1.current l.edits := by
  cases stage with
  | received => exact change_same hnow
  | ready keyEpoch =>
    refine change_same
      (hnow.trans
        (VaultDb.current_reseal keyEpoch m.now req.items db fun item hitem v hv => ?_).symm)
    exact hkept item hitem v (by rw [hnow]; exact hv)
  | answered a => exact change_same hnow

/-- A purge drops, and changes nothing else. -/
theorem change_of_purged {root : ItemId} {db' : VaultDb} (hnow : l.now = db.current)
    (h : db.PurgedBelow root db') :
    Ledger.Change l db'.current l.edits := by
  obtain ⟨gone, hpurged, _⟩ := h
  exact .drop fun k x hx => by rw [hnow]; exact hpurged.current hx

theorem delete_keeps {id : ItemId} {stage : DeleteStage} {rows : List ItemId}
    {next : VaultDb × DeleteStage}
    (hnow : l.now = db.current) (h : deleteVaultItem.next id m rows db stage = some next) :
    Ledger.Change l next.1.current l.edits := by
  cases stage with
  | received =>
    obtain rfl := Option.some.inj h
    exact change_same hnow
  | authed =>
    obtain rfl := Option.some.inj h
    exact change_same hnow
  | purging stage =>
    obtain ⟨next', hpurge, rfl⟩ := Option.map_eq_some_iff.mp h
    exact change_of_purged hnow (VaultDb.purged_of_next hpurge)
  | answered a => cases h

theorem cleanUp_keeps {started : ℕ} {stage : CleanUpStage} {rows : List ItemId}
    {next : VaultDb × CleanUpStage}
    (hnow : l.now = db.current) (h : cleanUpVault.next started m rows db stage = some next) :
    Ledger.Change l next.1.current l.edits := by
  cases stage with
  | selecting =>
    simp only [cleanUpVault.next] at h
    split_ifs at h
    · obtain rfl := Option.some.inj h
      exact change_same hnow
    · obtain rfl := Option.some.inj h
      exact change_same hnow
  | reading id rest =>
    obtain rfl := Option.some.inj h
    exact change_same hnow
  | claiming id blobKey rest =>
    obtain rfl := Option.some.inj h
    exact .drop fun k x hx => by rw [hnow]; exact (VaultDb.purged_tombstone ..).current hx
  | purging id stage rest =>
    obtain ⟨next', hpurge, rfl⟩ := Option.map_eq_some_iff.mp h
    exact change_of_purged hnow (VaultDb.purged_of_next hpurge)
  | forgetting =>
    obtain rfl := Option.some.inj h
    exact .drop fun k x hx => by rw [hnow]; exact VaultDb.current_forget hx
  | done => cases h

end Handlers

namespace VaultWorld

/-- The ledger of the items' metadata. -/
def ledger (w : VaultWorld) : Ledger ItemId (Option VaultItemMeta) :=
  ⟨w.server.db.current, Written w.stored, w.edits⟩

structure Sound (w : VaultWorld) : Prop where
  linear : w.ledger.Linear
  here : w.server.db.snapshot ⊆ w.stored
  there : ∀ q ∈ w.stored, (∃ r ∈ w.server.db.items, r.id = q.id) ∨ q.id ∈ w.server.forgotten
  jobs : ∀ c ∈ w.server.calls, c.job.Kept w.stored
  ops : ∀ op ∈ w.ops, op.Kept w.stored
  sent : ∀ op ∈ w.ops, ∃ c, w.server.calls[op.call]? = some c ∧ c.job.request = op.request
  entries : ∀ e ∈ w.entries, e.record ∈ w.stored ∧ e.Opened

variable {w : VaultWorld}

theorem written_append {stored : List VaultItem} {db : VaultDb} {k : ItemId} {r : ℕ}
    {v : Option VaultItemMeta} :
    Written (stored ++ db.snapshot) k r v ↔ Written stored k r v ∨ db.current k = some (r, v) := by
  rw [VaultDb.current_eq_some]
  constructor
  · intro ⟨q, hq, hid, hrevision, hmeta⟩
    rcases List.mem_append.mp hq with hq | hq
    · exact Or.inl ⟨q, hq, hid, hrevision, hmeta⟩
    · obtain ⟨hmem, hlive⟩ := VaultDb.mem_snapshot.mp hq
      exact Or.inr ⟨q, hmem, hid, hlive, by rw [hrevision, hmeta]⟩
  · intro hwritten
    rcases hwritten with hwritten | ⟨q, hq, hid, hlive, heq⟩
    · exact hwritten.mono (List.subset_append_left ..)
    · obtain ⟨hrevision, hmeta⟩ := Prod.mk.inj heq
      exact ⟨q, List.mem_append_right _ (VaultDb.mem_snapshot.mpr ⟨hq, hlive⟩), hid,
        hrevision, hmeta⟩

/-- After a step of the server. -/
theorem Sound.after (h : Sound w) {server : VaultServer} {edits : List (Edit ItemId)}
    (hchange : Ledger.Change w.ledger server.db.current edits)
    (hthere : ∀ x, (∃ r ∈ w.server.db.items, r.id = x) ∨ x ∈ w.server.forgotten →
      (∃ r ∈ server.db.items, r.id = x) ∨ x ∈ server.forgotten)
    (hjobs : ∀ c ∈ server.calls, c.job.Kept (w.stored ++ server.db.snapshot))
    (hsent : ∀ (i : ℕ) (c : VaultCall), w.server.calls[i]? = some c →
      ∃ c', server.calls[i]? = some c' ∧ c'.job.request = c.job.request) :
    Sound { w with server, stored := w.stored ++ server.db.snapshot, edits } where
  linear := h.linear.change hchange fun _ _ _ => written_append
  here := List.subset_append_right ..
  there := fun q hq => by
    rcases List.mem_append.mp hq with hq | hq
    · exact hthere q.id (h.there q hq)
    · exact Or.inl ⟨q, (VaultDb.mem_snapshot.mp hq).1, rfl⟩
  jobs := hjobs
  ops := fun op hop => (h.ops op hop).mono (List.subset_append_left ..)
  sent := fun op hop => by
    obtain ⟨c, hc, hrequest⟩ := h.sent op hop
    obtain ⟨c', hc', hsame⟩ := hsent op.call c hc
    exact ⟨c', hc', hsame.trans hrequest⟩
  entries := fun e he => ⟨List.mem_append_left _ (h.entries e he).1, (h.entries e he).2⟩

/-- A step that leaves the rows and the jobs alone. -/
theorem Sound.quiet (h : Sound w) {server : VaultServer}
    (hitems : server.db.items = w.server.db.items)
    (hforgotten : server.forgotten = w.server.forgotten)
    (hjobs : server.calls.map VaultCall.job = w.server.calls.map VaultCall.job) :
    Sound { w with server, stored := w.stored ++ server.db.snapshot, edits := w.edits ++ [] } := by
  have hcurrent : w.ledger.now = server.db.current := by
    funext x
    rw [VaultDb.current, VaultDb.vaultItem, hitems]
    rfl
  refine h.after (by rw [List.append_nil]; exact change_same hcurrent) (fun x hx => ?_) (fun c hc =>
    ?_) fun i c hc => ?_
  · rwa [hitems, hforgotten]
  · obtain ⟨c', hc', hjob⟩ := List.mem_map.mp (hjobs ▸ List.mem_map_of_mem hc)
    rw [← hjob]
    exact VaultJob.Kept.mono (List.subset_append_left ..) (h.jobs c' hc')
  · have hget : (server.calls.map VaultCall.job)[i]? = some c.job := by
      rw [hjobs, List.getElem?_map, hc]; rfl
    rw [List.getElem?_map, Option.map_eq_some_iff] at hget
    obtain ⟨c', hc', hjob⟩ := hget
    exact ⟨c', hc', by rw [hjob]⟩

/-- One step of a call. -/
theorem Sound.job (h : Sound w) {job : VaultJob} {started : ℕ} {m : VaultMoment}
    {rows : List ItemId} {next : VaultDb × VaultJob} (hkept : job.Kept w.stored)
    (hnext : job.next started m rows w.server.db = some next)
    (hfresh : ∀ req keyEpoch size, job = .create req (.ready keyEpoch size) →
      req.id ∉ w.server.forgotten) :
    Ledger.Change w.ledger next.1.current (w.edits ++ job.accepted next.2) ∧
      next.2.Kept (w.stored ++ next.1.snapshot) ∧ next.2.request = job.request := by
  have hnone : ∀ {now}, Ledger.Change w.ledger now w.edits →
      Ledger.Change w.ledger now (w.edits ++ []) := by
    intro now hchange
    rwa [List.append_nil]
  cases job with
  | create req stage =>
    obtain rfl := Option.some.inj hnext
    have hkeeps :=
      create_keeps (l := w.ledger) (m := m) rfl h.here hkept
        fun keyEpoch size hstage hnew r v hwritten => by
      obtain ⟨q, hq, hid, _⟩ := hwritten
      rcases h.there q hq with ⟨p, hp, hpid⟩ | hforgotten
      · exact hnew p hp (hpid.trans hid)
      · exact hfresh req keyEpoch size (by rw [hstage]) (hid ▸ hforgotten)
    exact ⟨hnone hkeeps.1, hkeeps.2, rfl⟩
  | update id req stage =>
    obtain rfl := Option.some.inj hnext
    obtain ⟨hchange, hkept'⟩ := update_keeps (l := w.ledger) (m := m) rfl h.here hkept
    exact ⟨hchange, hkept', rfl⟩
  | reseal req stage =>
    obtain rfl := Option.some.inj hnext
    have hsame : ∀ item ∈ req.items, ∀ v, w.ledger.now item.id = some (item.revision, v) →
        v = some item.meta.payload :=
      fun item hitem v hv =>
        h.linear.one item.id item.revision v _ (h.linear.last _ _ _ hv).1 (hkept item hitem)
    have hkeeps :
        Ledger.Change w.ledger (resealVaultItems.next req m w.server.db stage).1.current w.edits :=
      reseal_keeps rfl hsame
    exact ⟨hnone hkeeps, VaultResealRequest.Kept.mono (List.subset_append_left ..) hkept, rfl⟩
  | delete id stage =>
    obtain ⟨next', hdelete, rfl⟩ := Option.map_eq_some_iff.mp hnext
    exact ⟨hnone (delete_keeps (l := w.ledger) rfl hdelete), trivial, rfl⟩
  | cleanUp stage =>
    obtain ⟨next', hcleanUp, rfl⟩ := Option.map_eq_some_iff.mp hnext
    exact ⟨hnone (cleanUp_keeps (l := w.ledger) rfl hcleanUp), trivial, rfl⟩

/-- The server's steps. -/
theorem Sound.serve (h : Sound w) {event : VaultEvent} {server : VaultServer}
    (hfresh : w.server.FreshIds event)
    (hreceive : ∀ request, event ≠ .receive request) (hstep : w.server.step event = some server) :
    Sound { w with
      server, stored := w.stored ++ server.db.snapshot,
      edits := w.edits ++ accepted w.server server event } := by
  cases event with
  | receive request => exact absurd rfl (hreceive request)
  | cut i =>
    obtain ⟨call, hget, rfl⟩ := Option.map_eq_some_iff.mp hstep
    refine h.quiet rfl rfl ?_
    obtain ⟨hlt, hcall⟩ := List.getElem?_eq_some_iff.mp hget
    have hlt' : i < (w.server.calls.map VaultCall.job).length := by rwa [List.length_map]
    have hjob : (w.server.calls.map VaultCall.job)[i] = call.job := by rw [List.getElem_map, hcall]
    rw [List.map_set, ← hjob]
    exact List.set_getElem_self hlt'
  | tick =>
    obtain rfl := Option.some.inj hstep
    exact h.quiet rfl rfl rfl
  | rotate =>
    obtain rfl := Option.some.inj hstep
    exact h.quiet rfl rfl rfl
  | content blobs =>
    obtain rfl := Option.some.inj hstep
    exact h.quiet rfl rfl rfl
  | run i rows limited =>
    obtain ⟨call, hcall, hstep⟩ := Option.bind_eq_some_iff.mp hstep
    obtain ⟨next, hnext, hstep⟩ := Option.bind_eq_some_iff.mp hstep
    obtain rfl := Option.some.inj hstep
    obtain ⟨hget, _⟩ := Option.filter_eq_some_iff.mp hcall
    have hself : (w.server.calls.set i { call with job := next.2 })[i]? =
        some { call with job := next.2 } :=
      List.getElem?_set_self (List.getElem?_eq_some_iff.mp hget).1
    obtain ⟨hchange, hkept,
      hrequest⟩ :=
        h.job (h.jobs call (List.mem_of_getElem? hget)) hnext fun req keyEpoch size hjob => by
      simp only [VaultServer.FreshIds, hget, Option.map_some, hjob] at hfresh
      exact hfresh
    have haccepted : ∀ {db purged forgotten},
        accepted w.server ⟨db, w.server.groupKeyEpoch, w.server.clock,
        w.server.calls.set i { call with job := next.2 }, purged, forgotten⟩ (.run i rows limited) =
          call.job.accepted next.2 := by
      intro db purged forgotten
      simp only [accepted, hget, hself]
    rw [haccepted]
    refine h.after hchange (fun x hx => ?_) (fun c hc => ?_) fun j c hc => ?_
    · rcases hx with ⟨r, hr, rfl⟩ | hforgotten
      · cases hafter : next.1.items.get? r.id with
        | none =>
          refine Or.inr
            (List.mem_append_left _ (List.mem_map.mpr ⟨r, Table.mem_select.mpr ⟨hr, ?_⟩, rfl⟩))
          rw [hafter]
          rfl
        | some r' => exact Or.inl ⟨r', Table.get?_eq_some.mp hafter⟩
      · exact Or.inr (List.mem_append_right _ hforgotten)
    · rcases List.mem_or_eq_of_mem_set hc with hold | rfl
      · exact VaultJob.Kept.mono (List.subset_append_left ..) (h.jobs c hold)
      · exact hkept
    · by_cases hij : i = j
      · subst hij
        obtain rfl := Option.some.inj (hget.symm.trans hc)
        exact ⟨_, hself, hrequest⟩
      · exact ⟨c, (List.getElem?_set_ne hij).trans hc, rfl⟩

/-- A request is sent. -/
theorem Sound.sends (h : Sound w) (request : VaultRequest) {«meta» : Option VaultItemMeta}
    (hop : VaultOp.Kept w.stored ⟨request, w.server.calls.length, «meta»⟩) {w' : VaultWorld}
    (hsend : w.send request «meta» = some w') : Sound w' := by
  obtain ⟨server, hserver, rfl⟩ := Option.map_eq_some_iff.mp hsend
  obtain rfl := Option.some.inj hserver
  refine ⟨h.linear, h.here, h.there, fun c hc => ?_, fun op hop' => ?_,
    fun op hop' => ?_, h.entries⟩
  · rcases List.mem_append.mp hc with hold | hnew
    · exact h.jobs c hold
    · obtain rfl := List.mem_singleton.mp hnew
      cases request with
      | create req => exact fun row hrow => absurd hrow (by simp)
      | update id req => trivial
      | reseal req => exact hop
      | delete id => trivial
      | cleanUp => trivial
  · rcases List.mem_append.mp hop' with hold | hnew
    · exact h.ops op hold
    · obtain rfl := List.mem_singleton.mp hnew
      exact hop
  · rcases List.mem_append.mp hop' with hold | hnew
    · obtain ⟨c, hc, hrequest⟩ := h.sent op hold
      exact ⟨c, by rw [List.getElem?_append_left (List.getElem?_eq_some_iff.mp hc).1, hc], hrequest⟩
    · obtain rfl := List.mem_singleton.mp hnew
      refine ⟨_, List.getElem?_concat_length, ?_⟩
      cases request <;> rfl

/-- An entry that a client comes to hold. -/
theorem Sound.holds (h : Sound w) {e : VaultEntry} (hrecord : e.record ∈ w.stored)
    (hopened : e.Opened) :
    Sound { w with entries := w.entries ++ [e] } :=
  ⟨h.linear, h.here, h.there, h.jobs, h.ops, h.sent, fun e' he' => by
    rcases List.mem_append.mp he' with hold | hnew
    · exact h.entries e' hold
    · obtain rfl := List.mem_singleton.mp hnew
      exact ⟨hrecord, hopened⟩⟩

/-- An edit is made from what was read at the revision it names. -/
theorem edit_kept {stored : List VaultItem} {keyring : Keyring} {entry : VaultEntry} {iv : Iv}
    {edit : VaultEdit}
    {r : UpdateVaultItemRequest × Option VaultItemMeta} (hrecord : entry.record ∈ stored)
    (hopened : entry.Opened) (hedit : edit.request keyring entry iv = some r) (call : ℕ) :
    VaultOp.Kept stored ⟨.update entry.record.id r.1, call, r.2⟩ := by
  have hsealed : (∃ c, r.1.meta = some c ∧ r.2 = some c.payload) →
      VaultOp.Kept stored ⟨.update entry.record.id r.1, call, r.2⟩ := by
    intro ⟨c, hc, hr⟩ p hp
    dsimp only at hp
    rw [hc]
    exact Option.some.inj (hr.symm.trans hp)
  have hplain : r.1.meta = none → r.1.revision = entry.record.revision → r.2 = entry.meta →
      VaultOp.Kept stored ⟨.update entry.record.id r.1, call, r.2⟩ := by
    intro hnone hrevision hmeta p hp
    dsimp only at hp
    rw [hnone]
    exact ⟨entry.record, hrecord, rfl, hrevision.symm, hopened p (hmeta ▸ hp)⟩
  cases edit with
  | save title excerpt content => exact hsealed (updateMetaRequest_eq_some hedit).2
  | rename name =>
    obtain ⟨«meta», _, hrename⟩ := Option.bind_eq_some_iff.mp hedit
    exact hsealed (updateMetaRequest_eq_some hrename).2
  | move parentId =>
    obtain rfl := Option.some.inj hedit
    exact hplain rfl rfl rfl
  | trash trashed parentVisible =>
    obtain rfl := Option.some.inj hedit
    exact hplain rfl rfl rfl

theorem create_kept {stored : List VaultItem} {keyring : Keyring} {id : ItemId}
    {parentId : Option ItemId} {iv : Iv}
    {creation : VaultCreation} {r : CreateVaultItemRequest × VaultItemMeta}
    (hcreate : creation.request keyring id parentId iv = some r) (call : ℕ) :
    VaultOp.Kept stored ⟨.create r.1, call, some r.2⟩ := by
  cases creation with
  | folder name => exact congrArg some (createVaultItemRequest_eq_some hcreate).symm
  | note title excerpt content => exact congrArg some (createVaultItemRequest_eq_some hcreate).symm
  | file name mime content => exact congrArg some (createVaultItemRequest_eq_some hcreate).symm

/-- An answer shows what its record holds. -/
theorem arrives (hlinear : w.ledger.Linear) {job : VaultJob} {op : VaultOp}
    (hjob : job.Kept w.stored)
    (hop : op.Kept w.stored) (hrequest : job.request = op.request) {row : VaultItem}
    (hanswer : job.answer = some row) :
    row ∈ w.stored ∧ VaultEntry.Opened ⟨row, op.meta⟩ := by
  cases job with
  | create req stage =>
    cases stage with
    | answered a =>
      cases a with
      | ok row' =>
        obtain rfl := Option.some.inj hanswer
        obtain ⟨hrow, hmeta⟩ := hjob row' rfl
        refine ⟨hrow, fun p hp => ?_⟩
        rw [VaultOp.Kept, ← hrequest] at hop
        rw [← hp, hop, hmeta]
        rfl
      | error e => cases hanswer
    | _ => cases hanswer
  | update id req stage =>
    cases stage with
    | answered a =>
      cases a with
      | ok row' =>
        obtain rfl := Option.some.inj hanswer
        obtain ⟨hrow, hmeta⟩ := hjob row' rfl
        refine ⟨hrow, fun p hp => ?_⟩
        rw [VaultOp.Kept, ← hrequest] at hop
        have hsent := hop p hp
        cases hreq : req.meta with
        | some c =>
          simp only [hreq] at hmeta hsent
          rw [hmeta, ← hsent]
          rfl
        | none =>
          simp only [hreq] at hmeta hsent
          exact hlinear.one id req.revision _ _ hmeta hsent
      | error e => cases hanswer
    | _ => cases hanswer
  | _ => cases hanswer

theorem Sound.step (h : Sound w) {event : VaultWorldEvent} {w' : VaultWorld}
    (hfresh : w.FreshIds event) (hstep : w.step event = some w') : Sound w' := by
  cases event with
  | create keyring id parentId iv creation =>
    obtain ⟨r, hr, hsend⟩ := Option.bind_eq_some_iff.mp hstep
    exact h.sends _ (create_kept hr _) hsend
  | edit keyring entry iv edit =>
    obtain ⟨r, hr, hsend⟩ := Option.bind_eq_some_iff.mp hstep
    dsimp only at hsend
    split_ifs at hsend with hentry
    obtain ⟨hrecord, hopened⟩ := h.entries entry hentry
    exact h.sends _ (edit_kept hrecord hopened hr _) hsend
  | reseal keyring entries iv round =>
    obtain ⟨req, hreq, hsend⟩ := Option.bind_eq_some_iff.mp hstep
    split_ifs at hsend with hentries
    have hkept : req.Kept w.stored := by
      intro item hitem
      obtain ⟨e, he, hid, hrevision, hmeta⟩ := resealVault_item hreq hitem
      obtain ⟨hrecord, hopened⟩ := h.entries e (hentries he)
      exact ⟨e.record, hrecord, hid, hrevision, hopened _ hmeta⟩
    exact h.sends (.reseal req) hkept hsend
  | delete id => exact h.sends (.delete id) trivial hstep
  | cleanUp => exact h.sends .cleanUp trivial hstep
  | again i =>
    obtain ⟨op, hop, hsend⟩ := Option.bind_eq_some_iff.mp hstep
    refine h.sends _ ?_ hsend
    exact h.ops op (List.mem_of_getElem? hop)
  | read keyring known record =>
    simp only [VaultWorld.step] at hstep
    split_ifs at hstep with hknown
    obtain rfl := Option.some.inj hstep
    refine h.holds ?_ (openRecord_opened (fun k hk => (h.entries k (hknown.2 k hk).1).2) record)
    rw [openRecord_record]
    exact hknown.1
  | arrive i =>
    obtain ⟨op, hop, hstep⟩ := Option.bind_eq_some_iff.mp hstep
    obtain ⟨row, hrow, hstep⟩ := Option.bind_eq_some_iff.mp hstep
    obtain rfl := Option.some.inj hstep
    obtain ⟨c, hc, hanswer⟩ := Option.bind_eq_some_iff.mp hrow
    have hmem := List.mem_of_getElem? hop
    obtain ⟨c', hc', hrequest⟩ := h.sent op hmem
    obtain rfl := Option.some.inj (hc.symm.trans hc')
    obtain ⟨hrecord, hopened⟩ := arrives h.linear
      (h.jobs c (List.mem_of_getElem? hc)) (h.ops op hmem) hrequest hanswer
    exact h.holds hrecord hopened
  | server event =>
    simp only [VaultWorld.step] at hstep
    split_ifs at hstep with hreceive
    obtain ⟨server, hserver, rfl⟩ := Option.map_eq_some_iff.mp hstep
    exact h.serve hfresh (fun request he => hreceive (by rw [he]; rfl)) hserver

theorem sound_new : Sound new where
  linear :=
    ⟨fun _ _ _ _ ⟨_, hq, _⟩ => absurd hq List.not_mem_nil,
      fun _ _ _ h => absurd h (Option.some_ne_none _).symm,
    fun _ => ⟨0, rfl⟩, fun _ he => absurd he List.not_mem_nil⟩
  here := List.Subset.refl _
  there := fun _ hq => absurd hq List.not_mem_nil
  jobs := fun _ hc => absurd hc List.not_mem_nil
  ops := fun _ hop => absurd hop List.not_mem_nil
  sent := fun _ hop => absurd hop List.not_mem_nil
  entries := fun _ he => absurd he List.not_mem_nil

/-- The accepted updates of each item form a single chain that ends in its revision, and
all metadata stored at one revision is the same. -/
structure Linear (w : VaultWorld) : Prop where
  chain : ∀ id, ∃ n, Ledger.editsOf w.edits id = Ledger.chain n ∧
    ∀ r, w.server.db.vaultItem id = some r → r.revision = n + 1
  same : ∀ q ∈ w.stored, ∀ q' ∈ w.stored, q.id = q'.id → q.revision = q'.revision →
    q.meta.map Sealed.payload = q'.meta.map Sealed.payload ∧
      ∀ keyring keyring' p p', openVaultMeta keyring q = some p →
        openVaultMeta keyring' q' = some p' → p = p'

theorem no_lost_edit {w : VaultWorld} (h : Runs.ReachableVia step FreshIds new w) : w.Linear := by
  have hsound : Sound w := h.invariant sound_new fun _ _ _ hs hok hstep => hs.step hok hstep
  refine ⟨fun id => ?_, fun q hq q' hq' hid hrevision => ?_⟩
  · cases hitem : w.server.db.vaultItem id with
    | none =>
      obtain ⟨n, hn⟩ := hsound.linear.chained id
      exact ⟨n, hn, fun r hr => absurd hr (Option.some_ne_none r).symm⟩
    | some r =>
      have hnow : w.ledger.now id = some (r.revision, r.meta.map Sealed.payload) := by
        simp only [ledger, VaultDb.current, hitem, Option.map_some]
      obtain ⟨_, _, n, hrev, hedits⟩ := hsound.linear.last id _ _ hnow
      exact ⟨n, hedits, fun r' hr' => Option.some.inj hr' ▸ hrev⟩
  · have hsame :=
      hsound.linear.one q.id q.revision _ _ ⟨q, hq, rfl, rfl, rfl⟩ ⟨q', hq', hid.symm,
        hrevision.symm, rfl⟩
    refine ⟨hsame, fun keyring keyring' p p' hp hp' => ?_⟩
    exact Option.some.inj
      ((openVaultMeta_eq_some hp).symm.trans (hsame.trans (openVaultMeta_eq_some hp')))

instance (w : VaultWorld) (event : VaultWorldEvent) : Decidable (w.FreshIds event) := by
  unfold FreshIds
  split <;> infer_instance

/-- A folder as it was created under the first key. -/
def created : VaultItem where
  id := 1
  parentId := none
  kind := .folder
  keyEpoch := some 1
  «meta» := some ⟨7, 0, (1, .folder), .named "Plans"⟩
  metaIv := some 0
  blobKey := none
  blobSize := 0
  revision := 1
  seq := 1
  createdAt := 0
  updatedAt := 0
  trashedAt := none
  removedAt := none

/-- The folder with another name. -/
def renamed : VaultItem :=
  { created with
    «meta» := some ⟨7, 1, (1, .folder), .named "Old plans"⟩, metaIv := some 1,
    revision := 2, seq := 2 }

def firstRing : Keyring := createKeyring 7 1

def runs (i n : ℕ) : List VaultWorldEvent := List.replicate n (.server (.run i [] false))

/-- The folder is created and renamed, and sealed again once the key was rotated. -/
def renamedAndResealed : List VaultWorldEvent :=
  .create firstRing 1 none 0 (.folder "Plans") :: runs 0 3 ++ .arrive 0 ::
    .edit firstRing ⟨created, some (.named "Plans")⟩ 1 (.rename "Old plans") :: runs 1 3 ++
      .arrive 1 ::
    .server .rotate :: .reseal (withEpoch firstRing 2 8) [⟨renamed, some (.named "Old plans")⟩]
      (fun _ => 2) 0 :: runs 2 2

theorem no_lost_edit_resealed : ∃ w, Runs.ReachableVia step FreshIds new w ∧ w.edits = [⟨1, 1, 2⟩] ∧
    (∃ q ∈ w.stored, q.revision = 2 ∧ q.keyEpoch = some 2) ∧ w.Linear := by
  have hrun : (Runs.replayVia step FreshIds new renamedAndResealed).any (fun w =>
      decide (w.edits = [⟨1, 1, 2⟩] ∧ ∃ q ∈ w.stored,
        q.revision = 2 ∧ q.keyEpoch = some 2)) = true := by decide +kernel
  obtain ⟨w, hw, hstate⟩ := (Option.any_eq_true _ _).mp hrun
  have hreach := Runs.reachableVia_of_replayVia hw
  obtain ⟨hedits, hstored⟩ := of_decide_eq_true hstate
  exact ⟨w, hreach, hedits, hstored, no_lost_edit hreach⟩

end VaultWorld
end SendSelf

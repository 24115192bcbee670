import SendSelf.Keys.Keyring
import SendSelf.Vault.Handlers

/-!
# What a client sends

A client opens the records it is given with its keyring, and seals what it sends under
the newest key it holds. Each request is made from an entry as the client holds it; an
entry is a record together with its metadata, if the device could open it. Titles and
excerpts of notes are parameters, already cut to size.
-/
namespace SendSelf

structure SealedMeta where
  keyEpoch : ℕ
  «meta» : MetaCiphertext
  metaIv : Iv

/-- `none` is a keyring which lacks its own current key. -/
def sealMeta (keyring : Keyring) (id : ItemId) (kind : ItemKind) («meta» : VaultItemMeta)
    (iv : Iv) : Option SealedMeta :=
  (currentKey keyring).map fun key => ⟨keyring.current, ⟨key, iv, (id, kind), «meta»⟩, iv⟩

/-- `none` is the source's `null`: this device never held the epoch, or opening failed. -/
def openVaultMeta (keyring : Keyring) (record : VaultItem) : Option VaultItemMeta := do
  let key ← keyForEpoch keyring (← record.keyEpoch)
  (← record.meta).openWith key (← record.metaIv) (record.id, record.kind)

structure VaultEntry where
  record : VaultItem
  «meta» : Option VaultItemMeta
deriving DecidableEq, Repr

/-- One record of `openRecords`: what is known of the same ciphertext is not opened again. -/
def openRecord (keyring : Keyring) (known : Option VaultEntry) (record : VaultItem) : VaultEntry :=
  match known.filter fun k =>
    k.meta.isSome && decide (k.record.meta = record.meta ∧ k.record.keyEpoch = record.keyEpoch) with
  | some k => ⟨record, k.meta⟩
  | none => ⟨record, openVaultMeta keyring record⟩

/-- What `uploadContent` returns. -/
structure SealedContent where
  blobKey : FileKey
  contentKey : GroupKey
  contentIv : Iv
  size : ℕ

def SealedContent.meta (content : SealedContent) (name : String) : VaultItemMeta :=
  { VaultItemMeta.named name with
    contentKey := some content.contentKey, contentIv := some content.contentIv,
    size := some content.size }

def createVaultItemRequest (keyring : Keyring) (id : ItemId) (kind : ItemKind)
    (parentId : Option ItemId) (blobKey : Option FileKey) («meta» : VaultItemMeta) (iv : Iv) :
    Option (CreateVaultItemRequest × VaultItemMeta) :=
  (sealMeta keyring id kind «meta» iv).map fun s =>
    (⟨id, kind, parentId, some s.keyEpoch, s.meta, s.metaIv, blobKey⟩, «meta»)

def createVaultFolder (keyring : Keyring) (id : ItemId) (parentId : Option ItemId)
    (name : String) (iv : Iv) :
    Option (CreateVaultItemRequest × VaultItemMeta) :=
  createVaultItemRequest keyring id .folder parentId none (.named name) iv

def createVaultNote (keyring : Keyring) (id : ItemId) (parentId : Option ItemId)
    (title excerpt : String)
    (content : SealedContent) (iv : Iv) : Option (CreateVaultItemRequest × VaultItemMeta) :=
  createVaultItemRequest keyring id .note parentId (some content.blobKey)
    { content.meta title with excerpt := some excerpt } iv

def createVaultFile (keyring : Keyring) (id : ItemId) (parentId : Option ItemId)
    (name mime : String)
    (content : SealedContent) (iv : Iv) : Option (CreateVaultItemRequest × VaultItemMeta) :=
  createVaultItemRequest keyring id .file parentId (some content.blobKey) { content.meta name with
    mime := some mime } iv

/-- A request with its metadata sealed, and what the answer is opened as. -/
def updateMetaRequest (keyring : Keyring) (entry : VaultEntry) (blobKey : Option FileKey)
    («meta» : VaultItemMeta) (iv : Iv) : Option (UpdateVaultItemRequest × Option VaultItemMeta) :=
  (sealMeta keyring entry.record.id entry.record.kind «meta» iv).map fun s =>
    (⟨entry.record.revision, none, some s.keyEpoch, some s.meta, some s.metaIv, blobKey, none⟩,
      some «meta»)

def updateVaultNote (keyring : Keyring) (entry : VaultEntry) (title excerpt : String)
    (content : SealedContent) (iv : Iv) : Option (UpdateVaultItemRequest × Option VaultItemMeta) :=
  updateMetaRequest keyring entry (some content.blobKey) { content.meta title with
    excerpt := some excerpt } iv

def renameVaultItem (keyring : Keyring) (entry : VaultEntry) (name : String) (iv : Iv) :
    Option (UpdateVaultItemRequest × Option VaultItemMeta) := do
  updateMetaRequest keyring entry none { (← entry.meta) with name } iv

def moveVaultItem (entry : VaultEntry) (parentId : Option ItemId) :
    UpdateVaultItemRequest × Option VaultItemMeta :=
  (⟨entry.record.revision, some parentId, none, none, none, none, none⟩, entry.meta)

def setVaultItemTrashed (entry : VaultEntry) (trashed parentVisible : Bool) :
    UpdateVaultItemRequest × Option VaultItemMeta :=
  (⟨entry.record.revision, if !trashed && !parentVisible then some none else none, none, none, none,
    none, some trashed⟩,
    entry.meta)

/-- The entries that are sealed under an older key, as far as they could be opened. -/
def staleEntries (keyring : Keyring) (entries : List VaultEntry) :
    List (VaultItem × VaultItemMeta) :=
  (entries.filter fun e => e.record.keyEpoch.any fun epoch =>
    decide (epoch < keyring.current)).filterMap fun e =>
    e.meta.map (e.record, ·)

def resealedItem (keyring : Keyring) (iv : ItemId → Iv) (entry : VaultItem × VaultItemMeta) :
    Option VaultDb.ResealedItem :=
  (sealMeta keyring entry.1.id entry.1.kind entry.2 (iv entry.1.id)).map fun s =>
    ⟨entry.1.id, entry.1.revision, s.meta, s.metaIv⟩

/-- The request of one round of `resealVault`'s loop. -/
def resealVault (keyring : Keyring) (iv : ItemId → Iv) (entries : List VaultEntry) (round : ℕ) :
    Option VaultResealRequest :=
  let stale := staleEntries keyring entries
  let offset := round * VAULT_RESEAL_BATCH
  if offset < stale.length then
    (((stale.drop offset).take VAULT_RESEAL_BATCH).mapM (resealedItem keyring iv)).map fun items =>
      ⟨some keyring.current, items⟩
  else none

variable {keyring : Keyring} {entry : VaultEntry} {iv : Iv}

theorem openVaultMeta_eq_some {record : VaultItem} {«meta» : VaultItemMeta}
    (h : openVaultMeta keyring record = some «meta») :
    record.meta.map Sealed.payload = some «meta» := by
  obtain ⟨epoch, _, h⟩ := Option.bind_eq_some_iff.mp h
  obtain ⟨key, _, h⟩ := Option.bind_eq_some_iff.mp h
  obtain ⟨c, hc, h⟩ := Option.bind_eq_some_iff.mp h
  obtain ⟨metaIv, _, h⟩ := Option.bind_eq_some_iff.mp h
  rw [hc, Option.map_some, Sealed.openWith_eq_some.mp h]

theorem openRecord_record (known : Option VaultEntry) (record : VaultItem) :
    (openRecord keyring known record).record = record := by
  unfold openRecord
  split <;> rfl

/-- What the entry shows is what its record holds. -/
def VaultEntry.Opened (e : VaultEntry) : Prop :=
  ∀ p, e.meta = some p → e.record.meta.map Sealed.payload = some p

theorem openRecord_opened {known : Option VaultEntry} (hknown : ∀ k ∈ known, k.Opened)
    (record : VaultItem) :
    (openRecord keyring known record).Opened := by
  intro p hp
  unfold openRecord at hp ⊢
  split at hp
  · rename_i k hk
    obtain ⟨hmem, hsame⟩ := Option.filter_eq_some_iff.mp hk
    simp only [Bool.and_eq_true, decide_eq_true_eq] at hsame
    exact hsame.2.1 ▸ hknown k hmem p hp
  · exact openVaultMeta_eq_some hp

theorem createVaultItemRequest_eq_some {id : ItemId} {kind : ItemKind} {parentId : Option ItemId}
    {blobKey : Option FileKey} {«meta» : VaultItemMeta} {r : CreateVaultItemRequest × VaultItemMeta}
    (h : createVaultItemRequest keyring id kind parentId blobKey «meta» iv = some r) :
    r.1.meta.payload = r.2 := by
  obtain ⟨s, hs, rfl⟩ := Option.map_eq_some_iff.mp h
  obtain ⟨key, _, rfl⟩ := Option.map_eq_some_iff.mp hs
  rfl

theorem updateMetaRequest_eq_some {blobKey : Option FileKey} {«meta» : VaultItemMeta}
    {r : UpdateVaultItemRequest × Option VaultItemMeta}
    (h : updateMetaRequest keyring entry blobKey «meta» iv = some r) :
    r.1.revision = entry.record.revision ∧ ∃ c, r.1.meta = some c ∧ r.2 = some c.payload := by
  obtain ⟨s, hs, rfl⟩ := Option.map_eq_some_iff.mp h
  obtain ⟨key, _, rfl⟩ := Option.map_eq_some_iff.mp hs
  exact ⟨rfl, _, rfl, rfl⟩

theorem mem_staleEntries {entries : List VaultEntry} {record : VaultItem} {«meta» : VaultItemMeta}
    (h : (record, «meta») ∈ staleEntries keyring entries) : ⟨record, some «meta»⟩ ∈ entries := by
  obtain ⟨e, he, hmeta⟩ := List.mem_filterMap.mp h
  obtain ⟨p, hp, heq⟩ := Option.map_eq_some_iff.mp hmeta
  obtain ⟨rfl, rfl⟩ := Prod.mk.inj heq
  rw [← hp]
  exact (List.mem_filter.mp he).1

theorem mem_mapM {α β : Type} {f : α → Option β} {l : List α} {l' : List β}
    (h : l.mapM f = some l') {b : β} (hb : b ∈ l') : ∃ a ∈ l, f a = some b := by
  induction l generalizing l' with
  | nil =>
    obtain rfl := Option.some.inj h
    exact absurd hb List.not_mem_nil
  | cons a l ih =>
    rw [List.mapM_cons] at h
    obtain ⟨b', hb', h⟩ := Option.bind_eq_some_iff.mp h
    obtain ⟨bs, hbs, h⟩ := Option.bind_eq_some_iff.mp h
    obtain rfl := Option.some.inj h
    rcases List.mem_cons.mp hb with rfl | hb
    · exact ⟨a, List.mem_cons_self, hb'⟩
    · obtain ⟨a', ha', hfa'⟩ := ih hbs hb
      exact ⟨a', List.mem_cons_of_mem _ ha', hfa'⟩

/-- An item that is sealed again holds what the entry it was made from shows. -/
theorem resealVault_item {ivs : ItemId → Iv} {entries : List VaultEntry} {round : ℕ}
    {req : VaultResealRequest}
    (h : resealVault keyring ivs entries round = some req) {item : VaultDb.ResealedItem}
    (hitem : item ∈ req.items) :
    ∃ e ∈ entries, e.record.id = item.id ∧ e.record.revision = item.revision ∧
      e.meta = some item.meta.payload := by
  unfold resealVault at h
  dsimp only at h
  split_ifs at h
  obtain ⟨items, hitems, rfl⟩ := Option.map_eq_some_iff.mp h
  obtain ⟨⟨record, p⟩, hstale, hsealed⟩ := mem_mapM hitems hitem
  obtain ⟨s, hs, rfl⟩ := Option.map_eq_some_iff.mp hsealed
  obtain ⟨key, _, rfl⟩ := Option.map_eq_some_iff.mp hs
  exact ⟨_, mem_staleEntries (List.mem_of_mem_drop (List.mem_of_mem_take hstale)), rfl, rfl, rfl⟩

end SendSelf

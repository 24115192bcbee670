import SendSelf.Lock.Switching

/-!
# Rewriting what is stored

Both directions write back what a row or a name reads as, under the other key. So
at every interruption a row is as it was, or in its new form.
-/
namespace SendSelf.DeviceStorage

open Interrupt

variable {α : Type} {key target : Option ContentKey} {ivs : Ivs} {s t : DeviceStorage α}

/-- The write puts back what was there, under the target. -/
def Rewrites (key target : Option ContentKey) (ivs : Ivs) (s : DeviceStorage α) :
    StorageWrite α → Prop
  | .putRow row => ∃ old value, s.rows.get? row.id = some old ∧
      fromStored key row.id old.body = .ok (some value) ∧
        row = ⟨row.id, toStored target (ivs.row row.id) row.id value⟩
  | .putSpace space => ∃ old, s.spaces.get? space.id = some old ∧
      space = rewriteName key target ivs old
  | _ => False

theorem rewriteRow_rewrites {row : LocalRow α} {w : StorageWrite α} (hrow : row ∈ s.rows)
    (h : some w ∈ rewriteRow key target ivs row) :
    Rewrites key target ivs s w ∧ ∃ new, w = .putRow new ∧ new.id = row.id := by
  unfold rewriteRow at h
  split at h
  · next value hvalue =>
    obtain rfl := Option.some.inj (List.mem_singleton.mp h)
    exact ⟨⟨row, value, Table.get?_of_mem hrow, hvalue, rfl⟩, _, rfl, rfl⟩
  · cases h
  · cases List.mem_singleton.mp h

theorem mem_storeRows {space : SpaceId} {store : LocalStore} {row : LocalRow α} :
    row ∈ s.storeRows space store ↔ row ∈ s.rows ∧ row.id.space = space ∧ row.id.store = store := by
  rw [storeRows, List.mem_insertionSort, Table.mem_select, decide_eq_true_eq]

/-- The rewriting of a space's content is that of its rows. -/
theorem mem_rewriteLocalContent {space : SpaceId} {step : Option (StorageWrite α)} :
    step ∈ s.rewriteLocalContent key target ivs space ↔
      ∃ row ∈ s.rows, row.id.space = space ∧ step ∈ rewriteRow key target ivs row := by
  simp only [rewriteLocalContent, rewriteStore, List.mem_flatMap, mem_storeRows]
  constructor
  · intro ⟨_, _, row, ⟨hrow, hspace, _⟩, h⟩
    exact ⟨row, hrow, hspace, h⟩
  · intro ⟨row, hrow, hspace, h⟩
    refine ⟨row.id.store, ?_, row, ⟨hrow, hspace, rfl⟩, h⟩
    cases row.id.store <;> simp

theorem mem_rewriteSpaceNames {step : Option (StorageWrite α)} :
    step ∈ s.rewriteSpaceNames key target ivs ↔
      ∃ space ∈ s.spaces, step = some (.putSpace (rewriteName key target ivs space)) := by
  simp only [rewriteSpaceNames, List.mem_map]
  constructor
  · intro ⟨space, hspace, h⟩
    exact ⟨space, Table.mem_sortBy.mp hspace, h.symm⟩
  · intro ⟨space, hspace, h⟩
    exact ⟨space, Table.mem_sortBy.mpr hspace, h.symm⟩

theorem rewriteSpaceNames_rewrites {w : StorageWrite α}
    (h : some w ∈ s.rewriteSpaceNames key target ivs) :
    Rewrites key target ivs s w := by
  obtain ⟨space, hspace, hw⟩ := mem_rewriteSpaceNames.mp h
  obtain rfl := Option.some.inj hw
  exact ⟨space, Table.get?_of_mem hspace, rfl⟩

/-- Every row and every name is as it was, or in its new form. -/
structure Rewritten (key target : Option ContentKey) (ivs : Ivs)
    (s t : DeviceStorage α) : Prop where
  rows : ∀ id, t.rows.get? id = s.rows.get? id ∨ ∃ old value, s.rows.get? id = some old ∧
    fromStored key id old.body = .ok (some value) ∧
      t.rows.get? id = some ⟨id, toStored target (ivs.row id) id value⟩
  spaces : ∀ id, t.spaces.get? id = s.spaces.get? id ∨
    ∃ old, s.spaces.get? id = some old ∧ t.spaces.get? id = some (rewriteName key target ivs old)

theorem Rewritten.refl (s : DeviceStorage α) : Rewritten key target ivs s s :=
  ⟨fun _ => Or.inl rfl, fun _ => Or.inl rfl⟩

/-- The write leaves rows and names alone. -/
def SparesContent : StorageWrite α → Prop
  | .putRow _ | .putSpace _ => False
  | _ => True

theorem write_content {w : StorageWrite α} (h : SparesContent w) :
    (write w s).rows = s.rows ∧ (write w s).spaces = s.spaces := by
  cases w with
  | putRow _ => cases h
  | putSpace _ => cases h
  | _ => exact ⟨rfl, rfl⟩

theorem Rewritten.congr {t' : DeviceStorage α} (h : Rewritten key target ivs s t)
    (hr : t'.rows = t.rows) (hs : t'.spaces = t.spaces) : Rewritten key target ivs s t' :=
  ⟨fun id => hr ▸ h.rows id, fun id => hs ▸ h.spaces id⟩

theorem Rewritten.write {w : StorageWrite α} (h : Rewritten key target ivs s t)
    (hw : Rewrites key target ivs s w ∨ SparesContent w) :
    Rewritten key target ivs s (DeviceStorage.write w t) := by
  rcases hw with hw | hw
  · cases w with
    | putRow row =>
      obtain ⟨old, value, hold, hvalue, hrow⟩ := hw
      refine ⟨fun id => ?_, h.spaces⟩
      simp only [DeviceStorage.write, Table.get?_put]
      split_ifs with he
      · exact Or.inr ⟨old, value, he ▸ hold, he ▸ hvalue, by rw [he]; exact congrArg some hrow⟩
      · exact h.rows id
    | putSpace space =>
      obtain ⟨old, hold, hspace⟩ := hw
      refine ⟨h.rows, fun id => ?_⟩
      simp only [DeviceStorage.write, Table.get?_put]
      split_ifs with he
      · exact Or.inr ⟨old, he ▸ hold, congrArg some hspace⟩
      · exact h.spaces id
    | _ => cases hw
  · obtain ⟨hr, hs⟩ := @write_content _ t w hw
    exact h.congr hr hs

theorem Rewritten.registered (h : Rewritten key target ivs s t) (id : SpaceId) :
    t.spaces.get? id = none ↔ s.spaces.get? id = none := by
  rcases h.spaces id with hsame | ⟨old, hold, hnew⟩
  · rw [hsame]
  · simp [hold, hnew]

theorem readRow_eq_some {memory : DeviceMemory} {id : RowId} {value : α} :
    s.readRow memory id = some value ↔
      ∃ row, s.rows.get? id = some row ∧
        fromStored memory.contentKey id row.body = .ok (some value) := by
  unfold DeviceStorage.readRow
  rw [Option.bind_eq_some_iff]
  refine exists_congr fun row => and_congr_right fun _ => ?_
  cases fromStored memory.contentKey id row.body <;> simp

/-- A row that stayed reads as before if the memory still opens it, and a rewritten
one if the memory opens its new form. -/
theorem Rewritten.readRow {memory memory' : DeviceMemory} {id : RowId} {value : α}
    (h : Rewritten memory.contentKey target ivs s t) (hread : s.readRow memory id = some value)
    (hkeep : t.rows.get? id = s.rows.get? id → t.readRow memory' id = some value)
    (hopen : ∀ iv, fromStored memory'.contentKey id (toStored target iv id value) =
      .ok (some value)) :
    t.readRow memory' id = some value := by
  rcases h.rows id with hsame | ⟨old, value', hold, hvalue, hnew⟩
  · exact hkeep hsame
  · obtain ⟨row, hrow, hbody⟩ := readRow_eq_some.mp hread
    obtain rfl := Option.some.inj (hold.symm.trans hrow)
    obtain rfl : value' = value := Option.some.inj (Except.ok.inj (hvalue.symm.trans hbody))
    exact readRow_eq_some.mpr ⟨_, hnew, hopen _⟩

theorem name_rewriteName_none {space : StoredSpace} (h : space.readName key = none) :
    (rewriteName key target ivs space).name = .plain none := by
  simp only [rewriteName, h]

theorem name_rewriteName_some {space : StoredSpace} {name : SpaceName} {k : ContentKey}
    (h : space.readName key = some name) : (rewriteName key (some k) ivs space).name =
      .sealed ⟨k, ivs.name space.id, space.id, name⟩ := by
  simp only [rewriteName, h]

theorem readName_rewriteName {key' : Option ContentKey} {space : StoredSpace} {name : SpaceName}
    (h : space.readName key = some name) (hkey : key' = target ∨ target = none) :
    (rewriteName key target ivs space).readName key' = some name := by
  unfold rewriteName
  rw [h]
  cases target with
  | none => rfl
  | some target =>
    obtain rfl := hkey.resolve_right (by simp)
    simp [StoredSpace.readName]

/-- Nothing is lost when rows and names read as before, and every space opens as
before or did not open. -/
theorem View.kept_of_open {memory memory' : DeviceMemory}
    (hrow : ∀ id value, s.readRow memory id = some value → t.readRow memory' id = some value)
    (hname : ∀ space name, s.readName memory space = some name →
      t.readName memory' space = some name)
    (hopen : ∀ space, s.openSpace memory space = .none ∨
      t.openSpace memory' space = s.openSpace memory space) :
    (s.viewWith memory).Kept (t.viewWith memory') := by
  have hfield : ∀ {β : Type} (field : OpenSecrets → Option β), field .none = none →
      WriteOnce.Below (fun space => field (s.openSpace memory space))
        fun space => field (t.openSpace memory' space) := by
    intro β field hempty space value hs
    rcases hopen space with hnone | hsame
    · have hs' : field (s.openSpace memory space) = some value := hs
      rw [hnone, hempty] at hs'
      cases hs'
    · exact (congrArg field hsame).trans hs
  exact ⟨hrow, hname, hfield OpenSecrets.session rfl, hfield OpenSecrets.keyring rfl,
    hfield OpenSecrets.deviceKeyPair rfl, hfield OpenSecrets.signingKeyPair rfl⟩

end SendSelf.DeviceStorage

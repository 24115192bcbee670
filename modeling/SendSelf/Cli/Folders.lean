import SendSelf.Library.Runs
import SendSelf.Vault.Clients

/-!
# Saving into a folder of the vault

A save names a folder by its path and creates what is missing of it. Names are not unique in the
vault; the oldest folder of a name in a place is the one that is meant. Saves read the vault once
and create one folder at a time, while other devices change it and other saves go their way.

Two saves that run at once may both create a folder, and one of them then keeps to its own. A save
that nobody is ahead of with a folder that it finds missing settles its path: all later ones end in
the same folder and create none, as long as nobody touches the folders of the path or puts older
ones of their names beside them.
-/
namespace SendSelf.Cli

def isFolder (parentId : Option ItemId) (name : String) (entry : VaultEntry) : Bool :=
  decide (entry.record.kind = .folder) && decide (entry.record.parentId = parentId) &&
    decide (entry.meta.map VaultItemMeta.name = some name)

def byCreation (a b : VaultEntry) : Bool := decide (a.record.createdAt ≤ b.record.createdAt)

def childFolder (entries : List VaultEntry) (parentId : Option ItemId) (name : String) :
    Option VaultEntry :=
  ((entries.filter (isFolder parentId name)).mergeSort byCreation).head?

/-- The loop of `resolveFolder` up to the first folder that is missing. -/
def descend (entries : List VaultEntry) : Option ItemId → List String → Option ItemId × List String
  | parentId, [] => (parentId, [])
  | parentId, name :: names =>
      match childFolder entries parentId name with
      | some folder => descend entries (some folder.record.id) names
      | none => (parentId, name :: names)

/-- A save on its way: what it read and created, where it is and what is left of its path. -/
structure Save where
  entries : List VaultEntry
  parentId : Option ItemId
  names : List String
deriving DecidableEq

def Save.goOn (save : Save) : Save :=
  { save with
    parentId := (descend save.entries save.parentId save.names).1
    names := (descend save.entries save.parentId save.names).2 }

abbrev SaveId := ℕ

structure SharedVault where
  /-- What reading the vault gives: the items that show, opened. -/
  entries : List VaultEntry
  saves : SaveId → Option Save

inductive VaultUse where
  | resolveFolder (i : SaveId) (names : List String)
  /-- The next folder of a save is created, as the server answers it. -/
  | createVaultFolder (i : SaveId) (record : VaultItem)
  | fail (i : SaveId)
  /-- Whatever other devices do to the vault. -/
  | change (entries : List VaultEntry)

def SharedVault.step (s : SharedVault) : VaultUse → Option SharedVault
  | .resolveFolder i names =>
      some { s with saves := Function.update s.saves i (some (Save.goOn ⟨s.entries, none, names⟩)) }
  | .createVaultFolder i record =>
      match s.saves i with
      | some ⟨entries, parentId, name :: names⟩ =>
          if record.kind = .folder ∧ record.parentId = parentId ∧ record.parentId ≠ some record.id ∧
              ∀ e ∈ s.entries ++ entries, e.record.parentId ≠ some record.id then
            let folder : VaultEntry := ⟨record, some (.named name)⟩
            some {
              entries := s.entries ++ [folder]
              saves := Function.update s.saves i
                (some (Save.goOn ⟨entries ++ [folder], some record.id, names⟩)) }
          else none
      | _ => none
  | .fail i => some { s with saves := Function.update s.saves i none }
  | .change entries => some { s with entries }

variable {entries entries' : List VaultEntry} {parentId q r : Option ItemId} {name : String}
    {names : List String}
  {folder x : VaultEntry}

theorem parentId_of_fits (h : isFolder parentId name folder = true) :
    folder.record.parentId = parentId := by
  simp only [isFolder, Bool.and_eq_true, decide_eq_true_eq] at h
  exact h.1.2

theorem name_of_fits {record : VaultItem} {name' : String}
    (h : isFolder parentId name ⟨record, some (.named name')⟩ = true) : name' = name := by
  simp only [isFolder, Bool.and_eq_true, decide_eq_true_eq] at h
  exact Option.some.inj h.2

/-- The folder is there, and others of its name in its place were created after it. -/
structure Oldest (entries : List VaultEntry) (parentId : Option ItemId) (name : String)
    (folder : VaultEntry) : Prop where
  mem : folder ∈ entries
  fits : isFolder parentId name folder = true
  oldest : ∀ g ∈ entries, isFolder parentId name g = true →
    g.record.id = folder.record.id ∨ folder.record.createdAt < g.record.createdAt

/-- No two items were created at the same time. -/
def NoTies (entries : List VaultEntry) : Prop :=
  ∀ e ∈ entries, ∀ e' ∈ entries, e.record.createdAt = e'.record.createdAt →
  e.record.id = e'.record.id

theorem childFolder_mem (h : childFolder entries parentId name = some folder) :
    folder ∈ entries ∧ isFolder parentId name folder = true :=
  List.mem_filter.mp (List.mem_mergeSort.mp (List.mem_of_head? h))

theorem childFolder_eq_none :
    childFolder entries parentId name = none ↔ ∀ g ∈ entries, isFolder parentId name g = false := by
  rw [childFolder, List.head?_eq_none_iff, ← List.length_eq_zero_iff, List.length_mergeSort,
    List.length_eq_zero_iff,
    List.filter_eq_nil_iff]
  exact forall₂_congr fun g _ => Bool.eq_false_iff.symm

theorem childFolder_le (h : childFolder entries parentId name = some folder) :
    ∀ g ∈ entries, isFolder parentId name g = true →
      folder.record.createdAt ≤ g.record.createdAt := by
  intro g hg hfolder
  have htrans : ∀ a b c, byCreation a b = true → byCreation b c = true → byCreation a c = true :=
    fun a b c hab hbc => decide_eq_true ((of_decide_eq_true hab).trans (of_decide_eq_true hbc))
  have htotal : ∀ a b, (byCreation a b || byCreation b a) = true := fun a b => by
    simpa [byCreation] using Nat.le_total _ _
  have hsorted := List.pairwise_mergeSort htrans htotal (entries.filter (isFolder parentId name))
  have hmem : g ∈ (entries.filter (isFolder parentId name)).mergeSort byCreation :=
    List.mem_mergeSort.mpr (List.mem_filter.mpr ⟨hg, hfolder⟩)
  obtain ⟨rest, hrest⟩ := List.head?_eq_some_iff.mp h
  rw [hrest] at hsorted hmem
  rcases List.mem_cons.mp hmem with rfl | hmem
  · exact le_rfl
  · exact of_decide_eq_true (List.rel_of_pairwise_cons hsorted hmem)

theorem Oldest.of_childFolder (hties : NoTies entries)
    (h : childFolder entries parentId name = some folder) :
    Oldest entries parentId name folder := by
  obtain ⟨hmem, hfolder⟩ := childFolder_mem h
  refine ⟨hmem, hfolder, fun g hg hgf => ?_⟩
  rcases (childFolder_le h g hg hgf).lt_or_eq with hlt | heq
  · exact Or.inr hlt
  · exact Or.inl (hties g hg folder hmem heq.symm)

/-- The loop goes into the oldest folder. -/
theorem Oldest.childFolder (h : Oldest entries parentId name folder) :
    ∃ g, childFolder entries parentId name = some g ∧ g.record.id = folder.record.id := by
  cases hg : Cli.childFolder entries parentId name with
  | none =>
    have hmissing := childFolder_eq_none.mp hg folder h.mem
    rw [h.fits] at hmissing
    cases hmissing
  | some g =>
    obtain ⟨hmem, hfolder⟩ := childFolder_mem hg
    refine ⟨g, rfl, (h.oldest g hmem hfolder).resolve_right fun hlt => ?_⟩
    exact absurd (childFolder_le hg folder h.mem h.fits) (Nat.not_le.mpr hlt)

/-- What is created later changes nothing. -/
theorem Oldest.append (h : Oldest entries parentId name folder)
    (hx : folder.record.createdAt < x.record.createdAt) :
    Oldest (entries ++ [x]) parentId name folder := by
  refine ⟨List.mem_append_left _ h.mem, h.fits, fun g hg hfolder => ?_⟩
  rcases List.mem_append.mp hg with hg | hg
  · exact h.oldest g hg hfolder
  · obtain rfl := List.mem_singleton.mp hg
    exact Or.inr hx

/-- The oldest folders of the names lead from one place to another. -/
def Leads (entries : List VaultEntry) : Option ItemId → List String → Option ItemId → Prop
  | parentId, [], q => parentId = q
  | parentId, name :: names, q =>
      ∃ folder, Oldest entries parentId name folder ∧ Leads entries (some folder.record.id) names q

theorem Leads.append {more : List String} (h : Leads entries parentId names q)
    (h' : Leads entries q more r) :
    Leads entries parentId (names ++ more) r := by
  induction names generalizing parentId with
  | nil => exact h.symm ▸ h'
  | cons name names ih =>
    obtain ⟨folder, hfolder, hrest⟩ := h
    exact ⟨folder, hfolder, ih hrest⟩

theorem Leads.descend (h : Leads entries parentId names q) :
    descend entries parentId names = (q, []) := by
  induction names generalizing parentId with
  | nil => exact congrArg (·, []) h
  | cons name names ih =>
    obtain ⟨folder, hfolder, hrest⟩ := h
    obtain ⟨g, hg, hid⟩ := hfolder.childFolder
    rw [← hid] at hrest
    rw [Cli.descend, hg]
    exact ih hrest

/-- What was gone of a path, and that its next folder is missing. -/
theorem descend_spec (hties : NoTies entries) (parentId : Option ItemId) (names : List String) :
    ∃ gone, names = gone ++ (descend entries parentId names).2 ∧
      Leads entries parentId gone (descend entries parentId names).1 ∧
        ∀ name more, (descend entries parentId names).2 = name :: more →
          childFolder entries (descend entries parentId names).1 name = none := by
  induction names generalizing parentId with
  | nil => exact ⟨[], rfl, rfl, fun name more h => by cases h⟩
  | cons name names ih =>
    rw [descend]
    cases hchild : childFolder entries parentId name with
    | none =>
      refine ⟨[], rfl, rfl, fun name' more h => ?_⟩
      obtain ⟨rfl, rfl⟩ := List.cons.inj h
      exact hchild
    | some folder =>
      obtain ⟨gone, hnames, hleads, hmissing⟩ := ih (some folder.record.id)
      exact ⟨name :: gone, congrArg (name :: ·) hnames,
        ⟨folder, .of_childFolder hties hchild, hleads⟩, hmissing⟩

/-- Each folder of the path is still there, as it was or edited, and is still the oldest. -/
def Spared (entries entries' : List VaultEntry) : Option ItemId → List String → Prop
  | _, [] => True
  | parentId, name :: names => ∀ folder, Oldest entries parentId name folder →
      (∃ folder', Oldest entries' parentId name folder' ∧ folder'.record.id = folder.record.id) ∧
        Spared entries entries' (some folder.record.id) names

theorem Leads.spared (h : Leads entries parentId names q)
    (hspared : Spared entries entries' parentId names) :
    Leads entries' parentId names q := by
  induction names generalizing parentId with
  | nil => exact h
  | cons name names ih =>
    obtain ⟨folder, hfolder, hrest⟩ := h
    obtain ⟨⟨folder', hfolder', hid⟩, hspared⟩ := hspared folder hfolder
    exact ⟨folder', hfolder', hid ▸ ih hrest hspared⟩

/-- The server's clock is past all that was created. -/
def Later (entries : List VaultEntry) (record : VaultItem) : Prop :=
  ∀ e ∈ entries, e.record.createdAt < record.createdAt

/-- What is created later spares every path. -/
theorem Spared.append (hx : Later entries x.record) (parentId : Option ItemId)
    (names : List String) :
    Spared entries (entries ++ [x]) parentId names := by
  induction names generalizing parentId with
  | nil => trivial
  | cons name names ih =>
    exact fun folder hfolder => ⟨⟨folder, hfolder.append (hx folder hfolder.mem), rfl⟩, ih _⟩

/-- A save finds nothing in a folder that was just created. -/
theorem descend_childless (h : ∀ g ∈ entries, g.record.parentId ≠ parentId) (names : List String) :
    descend entries parentId names = (parentId, names) := by
  cases names with
  | nil => rfl
  | cons name names =>
    have hnone : childFolder entries parentId name = none :=
      childFolder_eq_none.mpr fun g hg => Bool.eq_false_iff.mpr fun hfits =>
        h g hg (parentId_of_fits hfits)
    rw [descend, hnone]

/-- Others leave alone what the save has gone of its path, and nobody is ahead of it with the folder
that it finds missing. -/
def Undisturbed (i : SaveId) (names : List String) (s : SharedVault) : VaultUse → Prop
  | .resolveFolder j _ => j ≠ i
  | .fail j => j ≠ i
  | .createVaultFolder j record => Later s.entries record ∧
      (j = i ∨ ∀ save other, s.saves i = some save →
      s.saves j = some other → other.parentId ≠ save.parentId ∨
      other.names.head? ≠ save.names.head?)
  | .change entries => ∀ save, s.saves i = some save →
      (∀ gone, names = gone ++ save.names → Spared s.entries entries none gone) ∧
        ∀ name more, save.names = name :: more → ∀ g ∈ entries,
        isFolder save.parentId name g = false

/-- The save has gone a part of its path, and the next folder is missing. -/
structure OnItsWay (i : SaveId) (names : List String) (s : SharedVault) (save : Save) : Prop where
  saves : s.saves i = some save
  gone : ∃ gone, names = gone ++ save.names ∧ Leads s.entries none gone save.parentId
  missing : ∀ name more, save.names = name :: more → ∀ g ∈ s.entries,
    isFolder save.parentId name g = false

theorem OnItsWay.read {i : SaveId} {s t : SharedVault} (hties : NoTies s.entries)
    (hs : SharedVault.step s (.resolveFolder i names) = some t) :
    ∃ save, OnItsWay i names t save := by
  obtain rfl := Option.some.inj hs
  obtain ⟨gone, hnames, hleads, hmissing⟩ := descend_spec hties none names
  exact ⟨_, Function.update_self .., ⟨gone, hnames, hleads⟩, fun name more h =>
    childFolder_eq_none.mp (hmissing name more h)⟩

/-- What others create elsewhere, or under another name, does not disturb it. -/
theorem OnItsWay.append {i : SaveId} {s : SharedVault} {save : Save} (h : OnItsWay i names s save)
    (hlater : Later s.entries x.record)
    (hx : ∀ name more, save.names = name :: more → isFolder save.parentId name x = false)
    {saves : SaveId → Option Save} (hsaves : saves i = s.saves i) :
    OnItsWay i names ⟨s.entries ++ [x], saves⟩ save := by
  obtain ⟨gone, hnames, hgone⟩ := h.gone
  refine ⟨hsaves.trans h.saves, ⟨gone, hnames, hgone.spared (.append hlater none gone)⟩,
    fun name more hmore g hg => ?_⟩
  rcases List.mem_append.mp hg with hg | hg
  · exact h.missing name more hmore g hg
  · exact List.mem_singleton.mp hg ▸ hx name more hmore

/-- It creates the folder that is missing, and goes into it. -/
theorem OnItsWay.create {i : SaveId} {s : SharedVault} {known : List VaultEntry}
    {more : List String} {record : VaultItem}
    (h : OnItsWay i names s ⟨known, parentId, name :: more⟩) (hlater : Later s.entries record)
    (hkind : record.kind = .folder) (hparent : record.parentId = parentId)
    (hself : record.parentId ≠ some record.id)
    (hfresh : ∀ e ∈ s.entries ++ known, e.record.parentId ≠ some record.id)
    {saves : SaveId → Option Save} {save : Save}
    (hsave : save = Save.goOn ⟨known ++ [⟨record, some (.named name)⟩], some record.id, more⟩)
    (hsaves : saves i = some save) :
    OnItsWay i names ⟨s.entries ++ [⟨record, some (.named name)⟩], saves⟩ save := by
  obtain ⟨gone, rfl, hgone⟩ := h.gone
  have hchildless : ∀ entries : List VaultEntry,
      (∀ e ∈ entries, e.record.parentId ≠ some record.id) →
      ∀ g ∈ entries ++ [⟨record, some (.named name)⟩], g.record.parentId ≠ some record.id := by
    intro entries hentries g hg
    rcases List.mem_append.mp hg with hg | hg
    · exact hentries g hg
    · exact List.mem_singleton.mp hg ▸ hself
  have hstays :=
    descend_childless (hchildless known fun e he => hfresh e (List.mem_append_right _ he)) more
  have hnew :
      Oldest (s.entries ++ [⟨record, some (.named name)⟩]) parentId name ⟨record,
        some (.named name)⟩ := by
    refine ⟨List.mem_append_right _ List.mem_cons_self, by
      simp [isFolder, hkind, hparent, VaultItemMeta.named], ?_⟩
    intro g hg hfits
    rcases List.mem_append.mp hg with hg | hg
    · rw [h.missing name more rfl g hg] at hfits
      cases hfits
    · exact Or.inl (congrArg (·.record.id) (List.mem_singleton.mp hg))
  have hinto :
      Leads (s.entries ++ [⟨record, some (.named name)⟩]) parentId [name] (some record.id) :=
        ⟨_, hnew, rfl⟩
  subst hsave
  rw [Save.goOn, hstays] at hsaves ⊢
  refine ⟨hsaves,
    ⟨gone ++ [name], by simp, (hgone.spared (.append hlater none gone)).append hinto⟩, ?_⟩
  intro name' more' _ g hg
  refine Bool.eq_false_iff.mpr fun hfits => ?_
  exact hchildless s.entries (fun e he => hfresh e (List.mem_append_left _ he)) g hg
    (parentId_of_fits hfits)

theorem OnItsWay.step {i : SaveId} {s t : SharedVault} {save : Save} {e : VaultUse}
    (h : OnItsWay i names s save)
    (ho : Undisturbed i names s e) (hs : SharedVault.step s e = some t) :
    ∃ save', OnItsWay i names t save' := by
  cases e with
  | resolveFolder j names' =>
    obtain rfl := Option.some.inj hs
    exact ⟨save, (Function.update_of_ne (Ne.symm ho) _ _).trans h.saves, h.gone, h.missing⟩
  | fail j =>
    obtain rfl := Option.some.inj hs
    exact ⟨save, (Function.update_of_ne (Ne.symm ho) _ _).trans h.saves, h.gone, h.missing⟩
  | change entries =>
    obtain rfl := Option.some.inj hs
    obtain ⟨hspared, hmissing⟩ := ho save h.saves
    obtain ⟨gone, hnames, hgone⟩ := h.gone
    exact ⟨save, h.saves, ⟨gone, hnames, hgone.spared (hspared gone hnames)⟩, hmissing⟩
  | createVaultFolder j record =>
    obtain ⟨hlater, hother⟩ := ho
    simp only [SharedVault.step] at hs
    split at hs
    case h_2 => cases hs
    case h_1 known place name more hj =>
      split_ifs at hs with hrecord
      obtain ⟨hkind, hparent, hself, hfresh⟩ := hrecord
      obtain rfl := Option.some.inj hs
      by_cases hij : j = i
      · subst hij
        obtain rfl := Option.some.inj (hj.symm.trans h.saves)
        exact ⟨_, h.create hlater hkind hparent hself hfresh rfl (Function.update_self ..)⟩
      · refine ⟨save,
          h.append hlater (fun name' more' hmore => ?_) (Function.update_of_ne (Ne.symm hij) _ _)⟩
        refine Bool.eq_false_iff.mpr fun hfits => ?_
        have hplace := parentId_of_fits hfits
        have hname := name_of_fits hfits
        rcases hother.resolve_left hij save _ h.saves hj with hne | hne
        · exact hne (hparent.symm.trans hplace)
        · exact hne (by rw [hmore]; exact congrArg some hname)

/-- Other devices spare the path; saves and other folders come as they come. -/
def Spares (names : List String) (s : SharedVault) : VaultUse → Prop
  | .createVaultFolder _ record => Later s.entries record
  | .change entries => Spared s.entries entries none names
  | _ => True

theorem Leads.step {s t : SharedVault} {e : VaultUse} (h : Leads s.entries none names q)
    (ho : Spares names s e)
    (hs : SharedVault.step s e = some t) : Leads t.entries none names q := by
  cases e with
  | resolveFolder i names' =>
    obtain rfl := Option.some.inj hs
    exact h
  | fail i =>
    obtain rfl := Option.some.inj hs
    exact h
  | change entries =>
    obtain rfl := Option.some.inj hs
    exact h.spared ho
  | createVaultFolder i record =>
    simp only [SharedVault.step] at hs
    split at hs
    case h_1 known parentId name more hsaves =>
      split_ifs at hs
      obtain rfl := Option.some.inj hs
      exact h.spared (.append (x := ⟨record, some (.named name)⟩) ho none names)
    case h_2 => cases hs

namespace Folders.Sample

def made (id : ItemId) (parentId : Option ItemId) (createdAt : ℕ) : VaultItem where
  id := id
  parentId := parentId
  kind := .folder
  keyEpoch := some 1
  «meta» := none
  metaIv := none
  blobKey := none
  blobSize := 0
  revision := 1
  seq := createdAt
  createdAt := createdAt
  updatedAt := createdAt
  trashedAt := none
  removedAt := none

def backups : VaultEntry := ⟨made 1 none 10, some (.named "backups")⟩
def monday : VaultEntry := ⟨made 2 (some 1) 20, some (.named "monday")⟩

/-- Another folder of the name, made by hand. -/
def namesake : VaultEntry := ⟨made 3 none 30, some (.named "backups")⟩

def start : SharedVault := ⟨[backups], fun _ => none⟩
def found : SharedVault :=
  ⟨[backups], Function.update start.saves 1 (some ⟨[backups], some 1, ["monday"]⟩)⟩
def ended : SharedVault :=
  ⟨[backups, monday], Function.update found.saves 1 (some ⟨[backups, monday], some 2, []⟩)⟩

end Folders.Sample

end SendSelf.Cli

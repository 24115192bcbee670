import SendSelf.Files.Pending
import SendSelf.Files.Retention
import SendSelf.Outbox.World

/-!
# The attachment of a stored message matches its epoch and vector

Uploading a file and registering its message are separate requests, and every try
of a delivery overwrites the same object. Whatever a sender has in flight goes by
one choice of epoch and vector as long as it keeps to it. It does not always: the
command line chooses anew for each delivery, and the outbox after a rotation. The
attachment matches in every run in which another choice is made only when no
earlier try is stored or can still be.
-/
namespace SendSelf

namespace Entry

/-- The ciphertext of the choice that the file was last encrypted under. -/
def content (keyOf : ℕ → GroupKey) (entry : Entry) (id : MessageId) : Option FileCiphertext :=
  entry.used.map fun u => entry.encryptMessageFile id (keyOf u.1) u.2

/-- The file, its object key and the choice it was encrypted under stay. -/
structure Keeps (entry entry' : Entry) : Prop where
  r2Key : entry'.r2Key = entry.r2Key
  file : entry'.file = entry.file
  size : entry'.size = entry.size
  used : entry'.used = entry.used

theorem Keeps.refl (entry : Entry) : entry.Keeps entry := ⟨rfl, rfl, rfl, rfl⟩

theorem Keeps.trans {a b c : Entry} (h : a.Keeps b) (h' : b.Keeps c) : a.Keeps c :=
  ⟨h'.r2Key.trans h.r2Key, h'.file.trans h.file, h'.size.trans h.size, h'.used.trans h.used⟩

theorem Keeps.content {entry entry' : Entry} (h : entry.Keeps entry') (keyOf : ℕ → GroupKey)
    (id : MessageId) :
    entry'.content keyOf id = entry.content keyOf id := by
  simp only [Entry.content, encryptMessageFile, h.file, h.used]

theorem keeps_withStatus {entry : Entry} {status : Status} :
    entry.Keeps (entry.withStatus status) := by
  unfold withStatus
  split_ifs <;> exact ⟨rfl, rfl, rfl, rfl⟩

theorem withStatus_pc {entry : Entry} {status : Status} :
    (entry.withStatus status).pc = entry.pc := by
  unfold withStatus
  split_ifs <;> rfl

theorem keeps_pin {entry : Entry} {epoch : ℕ} {iv : Option Iv} :
    entry.Keeps (entry.pin epoch iv) := by
  unfold pin
  split <;> exact ⟨rfl, rfl, rfl, rfl⟩

/-- The delivery is over, and the file is left as it is. -/
structure Ends (entry entry' : Entry) : Prop extends entry.Keeps entry' where
  pc : entry'.pc = none

theorem ends_withStatus {entry entry' : Entry} {status : Status} (h : entry.Ends entry') :
    entry.Ends (entry'.withStatus status) :=
  ⟨h.toKeeps.trans keeps_withStatus, withStatus_pc.trans h.pc⟩

theorem ends_afterError {entry : Entry} {code : ApiErrorCode} :
    entry.Ends (entry.afterError code) := by
  have hend : entry.Ends { entry with pc := none } := ⟨⟨rfl, rfl, rfl, rfl⟩, rfl⟩
  unfold afterError
  simp only
  split
  · split_ifs
    · exact ends_withStatus ⟨⟨rfl, rfl, rfl, rfl⟩, rfl⟩
    · exact ends_withStatus hend
    · exact ends_withStatus hend
  · split_ifs <;> exact ⟨⟨rfl, rfl, rfl, rfl⟩, rfl⟩

theorem ends_afterGivingUp {entry : Entry} : entry.Ends entry.afterGivingUp := by
  unfold afterGivingUp
  simp only
  split
  · exact ends_withStatus ⟨⟨rfl, rfl, rfl, rfl⟩, rfl⟩
  · exact ⟨⟨rfl, rfl, rfl, rfl⟩, rfl⟩

theorem ends_afterKill {entry : Entry} : entry.Ends entry.afterKill := by
  unfold afterKill
  split <;> exact ⟨⟨rfl, rfl, rfl, rfl⟩, rfl⟩

end Entry

theorem keyForEpoch_agrees {keyOf : ℕ → GroupKey} {ring : Keyring} {epoch : ℕ} {key : GroupKey}
    (hring : OutboxWorld.agrees keyOf ring = true) (h : keyForEpoch ring epoch = some key) :
    key = keyOf epoch := by
  obtain ⟨l₁, l₂, hl, _⟩ := List.lookup_eq_some_iff.mp h
  have hmem : (epoch, key) ∈ ring.keys := by simp [hl]
  exact of_decide_eq_true (List.all_eq_true.mp hring _ hmem)

/-- The key that a delivery settles on is the space's key of its epoch. -/
theorem pinEpoch_agrees {keyOf : ℕ → GroupKey} {ring : Keyring} {entry : Entry} {epoch : ℕ}
    {key : GroupKey}
    (hring : OutboxWorld.agrees keyOf ring = true) (h : entry.pinEpoch ring = some (epoch, key)) :
    key = keyOf epoch := by
  unfold Entry.pinEpoch at h
  split at h
  · next pinned hpin =>
    obtain rfl := Option.some.inj h
    obtain ⟨e, _, hkey⟩ := Option.bind_eq_some_iff.mp hpin
    obtain ⟨k, hk, heq⟩ := Option.map_eq_some_iff.mp hkey
    obtain ⟨rfl, rfl⟩ := (Prod.mk.injEq ..).mp heq
    exact keyForEpoch_agrees hring hk
  · obtain ⟨k, hk, heq⟩ := Option.map_eq_some_iff.mp h
    obtain ⟨rfl, rfl⟩ := (Prod.mk.injEq ..).mp heq
    exact keyForEpoch_agrees hring hk

namespace OutboxWorld

/-- Nothing of an earlier delivery is stored or can still be. -/
def Quiet (s : OutboxWorld) (key : FileKey) : Prop :=
  (∀ row ∈ s.server.files.messages, row.fileR2Key ≠ some key) ∧
    ∀ r job, s.server.jobs r = some job → (∀ c, job.pendingPut ≠ some (key, c)) ∧
      ∀ body, job.pendingRow s.server.server.db = some body → body.fileR2Key ≠ some key

/-- The condition on a step: a file is encrypted under another epoch or vector only
when nothing of an earlier delivery is stored or can still be. -/
def Settled (s : OutboxWorld) : OutboxLabel → Prop
  | .upload id iv _ => ∀ entry epoch key u, s.entries id = some entry →
      entry.pc = some (.sealing epoch key) → entry.used = some u → u ≠ (epoch, entry.iv.getD iv) →
        Quiet s entry.r2Key
  | _ => True

variable {keyOf : ℕ → GroupKey} {s s' : OutboxWorld}

/-- The ciphertext is the one that the message of this key last encrypted. -/
def Current (keyOf : ℕ → GroupKey) (s : OutboxWorld) (key : FileKey) (c : FileCiphertext) : Prop :=
  ∃ id entry, s.entries id = some entry ∧ entry.r2Key = key ∧ entry.content keyOf id = some c

/-- The object of the message, if there, is the one it last encrypted. -/
def Clear (keyOf : ℕ → GroupKey) (s : OutboxWorld) (id : MessageId) (entry : Entry) : Prop :=
  ∀ c, s.server.files.objects entry.r2Key = some c → entry.content keyOf id = some c

/-- A row of this id, epoch and vector goes with the object at the key. -/
def Matches (keyOf : ℕ → GroupKey) (s : OutboxWorld) (key : FileKey) (id : MessageId) (epoch : ℕ)
    (iv : Option Iv) : Prop :=
  ∃ entry v, s.entries id = some entry ∧ entry.r2Key = key ∧ iv = some v ∧
    entry.used = some (epoch, v) ∧ Clear keyOf s id entry

/-- What a delivery holds while it waits. -/
def Holds (keyOf : ℕ → GroupKey) (s : OutboxWorld) (id : MessageId) (entry : Entry) : Prop :=
  match entry.pc with
  | none => True
  | some (.sealing epoch key) => key = keyOf epoch
  | some (.uploading epoch iv content _ r) => entry.used = some (epoch, iv) ∧
      entry.content keyOf id = some content ∧ ∃ job, s.server.jobs r = some job ∧
        job.uploads = some (entry.uploadRequest content) ∧ (job.landed → Clear keyOf s id entry)
  | some (.sending body _ _) => body.id = id ∧ body.fileR2Key = some entry.r2Key ∧
      Matches keyOf s entry.r2Key id body.keyEpoch body.fileIv

structure Matched (keyOf : ℕ → GroupKey) (s : OutboxWorld) : Prop where
  sound : s.server.server.Sound
  known : ∀ id entry, s.entries id = some entry → (id, entry.r2Key) ∈ s.composed
  apart : ∀ id id' entry entry', s.entries id = some entry → s.entries id' = some entry' →
    entry.r2Key = entry'.r2Key → id = id'
  holds : ∀ id entry, s.entries id = some entry → Holds keyOf s id entry
  puts : ∀ r job key c, s.server.jobs r = some job → job.pendingPut = some (key, c) →
    Current keyOf s key c
  pending : ∀ r job body key, s.server.jobs r = some job →
    job.pendingRow s.server.server.db = some body →
    body.fileR2Key = some key → Matches keyOf s key body.id body.keyEpoch body.fileIv
  rows : ∀ row ∈ s.server.files.messages, ∀ key, row.fileR2Key = some key →
    Matches keyOf s key row.id row.keyEpoch row.fileIv

/-- What is put at a message's key is what it last encrypted. -/
theorem Matched.content_eq (h : Matched keyOf s) {id : MessageId} {entry : Entry}
    (hid : s.entries id = some entry) {c : FileCiphertext} (hc : Current keyOf s entry.r2Key c) :
    entry.content keyOf id = some c := by
  obtain ⟨id', entry', hid', hkey, hcontent⟩ := hc
  obtain rfl := h.apart id' id entry' entry hid' hid hkey
  obtain rfl := Option.some.inj (hid'.symm.trans hid)
  exact hcontent

/-- The key of a message whose file was never encrypted is in nobody's hands. -/
theorem Matched.quiet_of_unused (h : Matched keyOf s) {id : MessageId} {entry : Entry}
    (hid : s.entries id = some entry) (hused : entry.used = none) : Quiet s entry.r2Key := by
  have hmatch : ∀ {i epoch iv}, ¬ Matches keyOf s entry.r2Key i epoch iv := by
    intro i epoch iv ⟨entry', v, hi, hkey, _, hu, _⟩
    obtain rfl := h.apart i id entry' entry hi hid hkey
    obtain rfl := Option.some.inj (hi.symm.trans hid)
    simp [hused] at hu
  refine ⟨fun row hrow hkey => hmatch (h.rows row hrow _ hkey), fun r job hr => ⟨fun c hp => ?_,
    fun body hp hkey => hmatch (h.pending r job body _ hr hp hkey)⟩⟩
  have hcontent := h.content_eq hid (h.puts r job _ c hr hp)
  simp [Entry.content, hused] at hcontent

/-- The rows, objects and jobs move on under the same messages. -/
theorem Matched.serve (h : Matched keyOf s) {server : FileServer} (hsound : server.server.Sound)
    (hle : s.server.server.db.keyEpoch ≤ server.server.db.keyEpoch)
    (hobj : ∀ key c, server.files.objects key = some c →
      s.server.files.objects key = some c ∨ Current keyOf s key c)
    (hrows : ∀ row ∈ server.files.messages, row ∈ s.server.files.messages ∨
      ∃ r job auth body now, s.server.jobs r = some job ∧
        job.pendingRow s.server.server.db = some body ∧
        row = sendMessage.row auth body now)
    (hjobs : ∀ r job', server.jobs r = some job' → ∃ job, s.server.jobs r = some job ∧
      (∀ p, job'.pendingPut = some p → job.pendingPut = some p) ∧
      ∀ body, job'.pendingRow s.server.server.db = some body →
        job.pendingRow s.server.server.db = some body)
    (hawait : ∀ r job, s.server.jobs r = some job → ∃ job', server.jobs r = some job' ∧
      job'.uploads = job.uploads ∧
      (job'.landed → job.landed ∨ ∃ key c, job.pendingPut = some (key, c) ∧
        server.files.objects key = some c ∧ ∀ req, job.uploads = some req → req.r2Key = key)) :
    Matched keyOf { s with server } := by
  have hclear : ∀ {id entry}, s.entries id = some entry → Clear keyOf s id entry →
      Clear keyOf { s with server } id entry := by
    intro id entry hid hc c hput
    rcases hobj entry.r2Key c hput with hold | hnew
    · exact hc c hold
    · exact h.content_eq hid hnew
  have hmatch : ∀ {key id epoch iv}, Matches keyOf s key id epoch iv →
      Matches keyOf { s with server } key id epoch iv := by
    intro key id epoch iv ⟨entry, v, hid, hkey, hiv, hused, hc⟩
    exact ⟨entry, v, hid, hkey, hiv, hused, hclear hid hc⟩
  refine ⟨hsound, h.known, h.apart, fun id entry hid => ?_, fun r job' key c hr hp => ?_,
    fun r job' body key hr hp hkey => ?_, fun row hrow key hkey => ?_⟩
  · have hold := h.holds id entry hid
    unfold Holds at hold ⊢
    split
    · trivial
    · next hpc =>
      rw [hpc] at hold
      exact hold
    · next epoch iv content attempt r hpc =>
      rw [hpc] at hold
      obtain ⟨hused, hcontent, job, hjob, hreq, hland⟩ := hold
      obtain ⟨job', hjob', huploads, hland'⟩ := hawait r job hjob
      refine ⟨hused, hcontent, job', hjob', huploads.trans hreq, fun hl => ?_⟩
      rcases hland' hl with hl | ⟨key, c, hput, hthere, hmine⟩
      · exact hclear hid (hland hl)
      · have hkey : entry.r2Key = key := hmine _ hreq
        subst hkey
        intro c' hc'
        rw [hthere] at hc'
        exact Option.some.inj hc' ▸ h.content_eq hid (h.puts r job _ c hjob hput)
    · next body attempt r hpc =>
      rw [hpc] at hold
      exact ⟨hold.1, hold.2.1, hmatch hold.2.2⟩
  · obtain ⟨job, hjob, hputs, _⟩ := hjobs r job' hr
    exact h.puts r job key c hjob (hputs _ hp)
  · obtain ⟨job, hjob, _, hbodies⟩ := hjobs r job' hr
    exact hmatch (h.pending r job body key hjob (hbodies _ (Job.pendingRow_mono hle hp)) hkey)
  · rcases hrows row hrow with hold | ⟨r, job, auth, body, now, hjob, hp, rfl⟩
    · exact hmatch (h.rows row hold key hkey)
    · exact hmatch (h.pending r job body key hjob hp hkey)

/-- Objects stay, and so does the choice of every message of the key. -/
structure KeepsAt (s s' : OutboxWorld) (key : FileKey) : Prop where
  objects : s'.server.files.objects = s.server.files.objects
  entries : ∀ id entry, s.entries id = some entry → entry.r2Key = key →
    ∃ entry', s'.entries id = some entry' ∧ entry.Keeps entry'

theorem Current.keep {key : FileKey} {c : FileCiphertext} (h : Current keyOf s key c)
    (hk : KeepsAt s s' key) : Current keyOf s' key c := by
  obtain ⟨id, entry, hid, hkey, hc⟩ := h
  obtain ⟨entry', hid', hkeep⟩ := hk.entries id entry hid hkey
  exact ⟨id, entry', hid', hkeep.r2Key.trans hkey, (hkeep.content keyOf id).trans hc⟩

theorem Clear.keep {id : MessageId} {entry entry' : Entry} (h : Clear keyOf s id entry)
    (ho : s'.server.files.objects = s.server.files.objects) (hkeep : entry.Keeps entry') :
    Clear keyOf s' id entry' := by
  intro c hc
  rw [ho, hkeep.r2Key] at hc
  exact (hkeep.content keyOf id).trans (h c hc)

theorem Matches.keep {key : FileKey} {id : MessageId} {epoch : ℕ} {iv : Option Iv}
    (h : Matches keyOf s key id epoch iv) (hk : KeepsAt s s' key) :
    Matches keyOf s' key id epoch iv := by
  obtain ⟨entry, v, hid, hkey, hiv, hused, hc⟩ := h
  obtain ⟨entry', hid', hkeep⟩ := hk.entries id entry hid hkey
  exact ⟨entry', v, hid', hkeep.r2Key.trans hkey, hiv, hkeep.used.trans hused,
    hc.keep hk.objects hkeep⟩

theorem Holds.keep {id : MessageId} {entry entry' : Entry} (h : Holds keyOf s id entry)
    (hjobs : ∀ q job, s.server.jobs q = some job → s'.server.jobs q = some job)
    (hk : KeepsAt s s' entry.r2Key) (hkeep : entry.Keeps entry') (hpc : entry'.pc = entry.pc) :
    Holds keyOf s' id entry' := by
  unfold Holds at h ⊢
  rw [hpc]
  split
  · trivial
  · next hp =>
    rw [hp] at h
    exact h
  · next epoch iv content attempt r hp =>
    rw [hp] at h
    obtain ⟨hused, hcontent, job, hjob, hreq, hland⟩ := h
    have hrequest : entry'.uploadRequest content = entry.uploadRequest content := by
      simp only [Entry.uploadRequest, hkeep.r2Key, hkeep.size]
    exact ⟨hkeep.used.trans hused, (hkeep.content keyOf id).trans hcontent, job, hjobs r job hjob,
      hreq.trans (congrArg some hrequest.symm), fun hl => (hland hl).keep hk.objects hkeep⟩
  · next body attempt r hp =>
    rw [hp] at h
    rw [hkeep.r2Key]
    exact ⟨h.1, h.2.1, h.2.2.keep hk⟩

/-- What a request that has just been sent may do is current. -/
def Covered (keyOf : ℕ → GroupKey) (s : OutboxWorld) (job : Job) : Prop :=
  (∀ key c, job.pendingPut = some (key, c) → Current keyOf s key c) ∧
    ∀ body key, job.pendingRow s.server.server.db = some body → body.fileR2Key = some key →
      Matches keyOf s key body.id body.keyEpoch body.fileIv

theorem Matched.change (h : Matched keyOf s) (hserver : s'.server.server = s.server.server)
    (hfiles : s'.server.files = s.server.files) (hkeeps : ∀ key, KeepsAt s s' key ∨ Quiet s key)
    (hknown : ∀ id entry, s'.entries id = some entry → (id, entry.r2Key) ∈ s'.composed)
    (hapart : ∀ id id' entry entry', s'.entries id = some entry → s'.entries id' = some entry' →
      entry.r2Key = entry'.r2Key → id = id')
    (hjobs : ∀ q job, s'.server.jobs q = some job → s.server.jobs q = some job ∨
      Covered keyOf s' job)
    (hholds : ∀ id entry, s'.entries id = some entry → Holds keyOf s' id entry) :
    Matched keyOf s' := by
  refine ⟨hserver ▸ h.sound, hknown, hapart, hholds, fun q job key c hq hp => ?_,
    fun q job body key hq hp hkey => ?_, fun row hrow key hkey => ?_⟩
  · rcases hjobs q job hq with hq | hnew
    · rcases hkeeps key with hk | hquiet
      · exact (h.puts q job key c hq hp).keep hk
      · exact absurd hp ((hquiet.2 q job hq).1 c)
    · exact hnew.1 key c hp
  · rcases hjobs q job hq with hq | hnew
    · rw [hserver] at hp
      rcases hkeeps key with hk | hquiet
      · exact (h.pending q job body key hq hp hkey).keep hk
      · exact absurd hkey ((hquiet.2 q job hq).2 body hp)
    · exact hnew.2 body key hp hkey
  · rw [hfiles] at hrow
    rcases hkeeps key with hk | hquiet
    · exact (h.rows row hrow key hkey).keep hk
    · exact absurd hkey (hquiet.1 row hrow)

/-- A sender has changed its message, and maybe sent a request. -/
def acted (s : OutboxWorld) (id : MessageId) (entry : Entry) (jobs : RequestId → Option Job) :
    OutboxWorld :=
  { s.setEntry id entry with server := { s.server with jobs } }

section
variable {id : MessageId} {entry entry' : Entry} {jobs : RequestId → Option Job}

theorem keepsAt_acted {key : FileKey} (hid : s.entries id = some entry)
    (hk : entry.r2Key = key → entry.Keeps entry') : KeepsAt s (s.acted id entry' jobs) key := by
  refine ⟨rfl, fun i e hi hkey => ?_⟩
  by_cases he : i = id
  · subst he
    obtain rfl := Option.some.inj (hid.symm.trans hi)
    exact ⟨entry', Function.update_self .., hk hkey⟩
  · exact ⟨e, (Function.update_of_ne he _ _).trans hi, .refl e⟩

theorem Matched.act (h : Matched keyOf s) (hid : s.entries id = some entry)
    (hr2 : entry'.r2Key = entry.r2Key) (hkeeps : entry.Keeps entry' ∨ Quiet s entry.r2Key)
    (hkept : ∀ q job, s.server.jobs q = some job → jobs q = some job)
    (hjobs : ∀ q job, jobs q = some job →
      s.server.jobs q = some job ∨ Covered keyOf (s.acted id entry' jobs) job)
    (hholds : Holds keyOf (s.acted id entry' jobs) id entry') :
    Matched keyOf (s.acted id entry' jobs) := by
  have hentries : ∀ {i e}, (s.acted id entry' jobs).entries i = some e →
      (i = id ∧ e = entry') ∨ (i ≠ id ∧ s.entries i = some e) := by
    intro i e hi
    by_cases he : i = id
    · subst he
      exact Or.inl ⟨rfl, Option.some.inj (hi.symm.trans (Function.update_self ..))⟩
    · exact Or.inr ⟨he, (Function.update_of_ne he _ _).symm.trans hi⟩
  have hold : ∀ {i e}, (s.acted id entry' jobs).entries i = some e →
      ∃ e₀, s.entries i = some e₀ ∧ e₀.r2Key = e.r2Key := by
    intro i e hi
    rcases hentries hi with ⟨rfl, rfl⟩ | ⟨_, hi⟩
    · exact ⟨entry, hid, hr2.symm⟩
    · exact ⟨e, hi, rfl⟩
  refine h.change rfl rfl (fun key => ?_) (fun i e hi => ?_) (fun i i' e e' hi hi' hkey => ?_) hjobs
    fun i e hi => ?_
  · by_cases hkey : entry.r2Key = key
    · rcases hkeeps with hk | hquiet
      · exact Or.inl (keepsAt_acted hid fun _ => hk)
      · exact Or.inr (hkey ▸ hquiet)
    · exact Or.inl (keepsAt_acted hid fun he => absurd he hkey)
  · obtain ⟨e₀, hi₀, hkey⟩ := hold hi
    exact hkey ▸ h.known i e₀ hi₀
  · obtain ⟨e₀, hi₀, hk⟩ := hold hi
    obtain ⟨e₁, hi₁, hk'⟩ := hold hi'
    exact h.apart i i' e₀ e₁ hi₀ hi₁ (by rw [hk, hk', hkey])
  · rcases hentries hi with ⟨rfl, rfl⟩ | ⟨hne, hi⟩
    · exact hholds
    · refine (h.holds i e hi).keep hkept (keepsAt_acted hid fun hkey => ?_) (.refl e) rfl
      exact absurd (h.apart i id e entry hi hid hkey.symm) hne

/-- A sender changes its message only. -/
theorem Matched.setEntry (h : Matched keyOf s) (hid : s.entries id = some entry)
    (hk : entry.Keeps entry') (hholds : Holds keyOf (s.setEntry id entry') id entry') :
    Matched keyOf (s.setEntry id entry') :=
  h.act hid hk.r2Key (Or.inl hk) (fun _ _ hq => hq) (fun _ _ hq => Or.inl hq) hholds

theorem Matched.ends (h : Matched keyOf s) (hid : s.entries id = some entry)
    (hend : entry.Ends entry') :
    Matched keyOf (s.setEntry id entry') := by
  refine h.setEntry hid hend.toKeeps ?_
  simp only [Holds, hend.pc]

theorem start_eq_some {r : RequestId} {job : Job}
    (h : (s.setEntry id entry').start r job = some s') :
    s' = s.acted id entry' (Function.update s.server.jobs r (some job)) ∧
    s.server.jobs r = none := by
  obtain ⟨server, hstart, rfl⟩ := Option.map_eq_some_iff.mp h
  simp only [FileServer.step, FileServer.start] at hstart
  split_ifs at hstart with hnew
  obtain rfl := Option.some.inj hstart
  exact ⟨rfl, Option.isNone_iff_eq_none.mp hnew.2⟩

/-- A sender changes its message and sends a request. -/
theorem Matched.depart (h : Matched keyOf s) (hid : s.entries id = some entry)
    (hr2 : entry'.r2Key = entry.r2Key) (hkeeps : entry.Keeps entry' ∨ Quiet s entry.r2Key)
    {r : RequestId} {job : Job} (hfree : s.server.jobs r = none)
    (hcov : Covered keyOf (s.acted id entry' (Function.update s.server.jobs r (some job))) job)
    (hholds : Holds keyOf (s.acted id entry' (Function.update s.server.jobs r (some job)))
      id entry') :
    Matched keyOf (s.acted id entry' (Function.update s.server.jobs r (some job))) := by
  refine h.act hid hr2 hkeeps (fun q other hq => ?_) (fun q other hq => ?_) hholds
  · have hne : q ≠ r := fun he => by simp [he, hfree] at hq
    rw [Function.update_of_ne hne]
    exact hq
  · by_cases he : q = r
    · subst he
      rw [Function.update_self] at hq
      exact Or.inr (Option.some.inj hq ▸ hcov)
    · rw [Function.update_of_ne he] at hq
      exact Or.inl hq

variable {r : RequestId} {token : Token} {attempt : ℕ}

theorem Matched.departUpload {epoch : ℕ} {iv : Iv} {content : FileCiphertext} {req : UploadRequest}
    (h : Matched keyOf s) (hid : s.entries id = some entry) (hr2 : entry'.r2Key = entry.r2Key)
    (hkeeps : entry.Keeps entry' ∨ Quiet s entry.r2Key) (hfree : s.server.jobs r = none)
    (hpc : entry'.pc = some (.uploading epoch iv content attempt r))
    (hused : entry'.used = some (epoch, iv)) (hcontent : entry'.content keyOf id = some content)
    (hreq : req = entry'.uploadRequest content) :
    Matched keyOf
      (s.acted id entry'
        (Function.update s.server.jobs r (some (.upload token req .received)))) := by
  subst hreq
  refine h.depart hid hr2 hkeeps hfree ⟨fun k c hp => ?_, fun body k hp => (nomatch hp)⟩ ?_
  · obtain ⟨rfl, rfl⟩ := (Prod.mk.injEq ..).mp (Option.some.inj hp)
    exact ⟨id, entry', Function.update_self .., rfl, hcontent⟩
  · simp only [Holds, hpc]
    exact ⟨hused, hcontent, _, Function.update_self .., rfl, fun hl => (nomatch hl)⟩

theorem Matched.departSend {body : SendMessageRequest} (h : Matched keyOf s)
    (hid : s.entries id = some entry) (hkeep : entry.Keeps entry') (hfree : s.server.jobs r = none)
    (hpc : entry'.pc = some (.sending body attempt r)) (hbody : body.id = id)
    (hkey : body.fileR2Key = some entry.r2Key)
    (hmatch : Matches keyOf s entry.r2Key id body.keyEpoch body.fileIv) :
    Matched keyOf
      (s.acted id entry'
        (Function.update s.server.jobs r (some (.send token body .received)))) := by
  have hkept : Matches keyOf (s.acted id entry' (Function.update s.server.jobs r
      (some (.send token body .received)))) entry.r2Key id body.keyEpoch body.fileIv :=
    hmatch.keep (keepsAt_acted hid fun _ => hkeep)
  refine h.depart hid hkeep.r2Key (Or.inl hkeep) hfree ⟨fun k c hp => (nomatch hp),
    fun b k hp hk => ?_⟩ ?_
  · simp only [Job.pendingRow] at hp
    split_ifs at hp
    obtain rfl := Option.some.inj hp
    obtain rfl := Option.some.inj (hkey.symm.trans hk)
    exact hbody ▸ hkept
  · simp only [Holds, hpc, hkeep.r2Key]
    exact ⟨hbody, hkey, hkept⟩

end

theorem Matched.begin {id : MessageId} {ring : Keyring} (h : Matched keyOf s)
    (hs : s.begin keyOf id ring = some s') : Matched keyOf s' := by
  simp only [OutboxWorld.begin, Option.bind_eq_bind, Option.bind_eq_some_iff] at hs
  obtain ⟨entry, hid, ⟨epoch, key⟩, hpin, hs⟩ := hs
  split_ifs at hs with hok
  obtain rfl := Option.some.inj hs
  have hkeep : entry.Keeps (entry.pin epoch entry.iv) := Entry.keeps_pin
  exact h.setEntry hid ⟨hkeep.r2Key, hkeep.file, hkeep.size,
    hkeep.used⟩ (pinEpoch_agrees hok.2.2 hpin)

theorem Matched.upload {id : MessageId} {iv : Iv} {r : RequestId} (h : Matched keyOf s)
    (hok : Settled s (.upload id iv r)) (hs : s.upload id iv r = some s') : Matched keyOf s' := by
  simp only [OutboxWorld.upload, Option.bind_eq_bind, Option.bind_eq_some_iff] at hs
  obtain ⟨entry, hid, hs⟩ := hs
  split at hs
  · next epoch key hpc =>
    obtain ⟨rfl, hfree⟩ := start_eq_some hs
    have hkey : key = keyOf epoch := by
      have hold := h.holds id entry hid
      rw [Holds, hpc] at hold
      exact hold
    have hpin : entry.Keeps (entry.pin epoch (some (entry.iv.getD iv))) := Entry.keeps_pin
    have hsame := hpin.trans (@Entry.keeps_withStatus _ .uploading)
    generalize hentry : (entry.pin epoch (some (entry.iv.getD iv))).withStatus .uploading =
      pinned at hsame ⊢
    have hused : entry.used = some (epoch, entry.iv.getD iv) ∨ Quiet s entry.r2Key := by
      cases hu : entry.used with
      | none => exact Or.inr (h.quiet_of_unused hid hu)
      | some u =>
        by_cases he : u = (epoch, entry.iv.getD iv)
        · exact Or.inl (by rw [he])
        · exact Or.inr (hok entry epoch key u hid hpc hu he)
    have hcontent : Entry.content keyOf { pinned with
        pc := some (.uploading epoch (entry.iv.getD iv)
          (entry.encryptMessageFile id key (entry.iv.getD iv)) 0 r),
        used := some (epoch, entry.iv.getD iv) } id =
          some (entry.encryptMessageFile id key (entry.iv.getD iv)) := by
      simp only [Entry.content, Option.map_some, Entry.encryptMessageFile, hsame.file, hkey]
    exact h.departUpload hid hsame.r2Key
      (hused.imp_left fun hu => ⟨hsame.r2Key, hsame.file, hsame.size, hu.symm⟩) hfree rfl
        rfl hcontent
      (by simp only [Entry.uploadRequest, hsame.r2Key, hsame.size])
  · cases hs

theorem Matched.resend {id : MessageId} {r : RequestId} (h : Matched keyOf s)
    (hs : s.resend id r = some s') : Matched keyOf s' := by
  simp only [OutboxWorld.resend, Option.bind_eq_bind, Option.bind_eq_some_iff] at hs
  obtain ⟨entry, hid, hs⟩ := hs
  have hold := h.holds id entry hid
  split at hs
  · next epoch iv content attempt q hpc =>
    split_ifs at hs
    obtain ⟨rfl, hfree⟩ := start_eq_some hs
    rw [Holds, hpc] at hold
    obtain ⟨hused, hcontent, _⟩ := hold
    exact h.departUpload hid rfl (Or.inl ⟨rfl, rfl, rfl, rfl⟩) hfree rfl hused hcontent rfl
  · next body attempt q hpc =>
    split_ifs at hs
    obtain ⟨rfl, hfree⟩ := start_eq_some hs
    rw [Holds, hpc] at hold
    obtain ⟨hbody, hkey, hmatch⟩ := hold
    exact h.departSend hid ⟨rfl, rfl, rfl, rfl⟩ hfree rfl hbody hkey hmatch
  · cases hs

theorem Matched.receive {id : MessageId} {e : Envelope} {r : RequestId} (h : Matched keyOf s)
    (hs : s.receive id e r = some s') : Matched keyOf s' := by
  simp only [OutboxWorld.receive, Option.bind_eq_bind, Option.bind_eq_some_iff] at hs
  obtain ⟨entry, hid, hs⟩ := hs
  have hold := h.holds id entry hid
  split at hs
  · next epoch iv content attempt q hpc =>
    rw [Holds, hpc] at hold
    obtain ⟨hused, hcontent, job, hjob, hreq, hland⟩ := hold
    split at hs
    · next token req hans =>
      obtain ⟨rfl, hfree⟩ := start_eq_some hs
      obtain rfl := Option.some.inj (hans.symm.trans hjob)
      exact h.departSend hid ⟨rfl, rfl, rfl, rfl⟩ hfree rfl rfl rfl ⟨entry, iv, hid, rfl, rfl,
        hused, hland rfl⟩
    · split_ifs at hs
      obtain rfl := Option.some.inj hs
      exact h.ends hid Entry.ends_afterError
    · cases hs
  · have hdone : entry.Ends { entry with pc := none } := ⟨⟨rfl, rfl, rfl, rfl⟩, rfl⟩
    split at hs
    · obtain rfl := Option.some.inj hs
      exact h.ends hid (Entry.ends_withStatus hdone)
    · split_ifs at hs
      · obtain rfl := Option.some.inj hs
        exact h.ends hid (Entry.ends_withStatus hdone)
      · obtain rfl := Option.some.inj hs
        exact h.ends hid Entry.ends_afterError
    · cases hs
  · cases hs

theorem Matched.composed {id : MessageId} {entry : Entry} (h : Matched keyOf s)
    (hfresh : ∀ q ∈ s.composed, q.1 ≠ id ∧ q.2 ≠ entry.r2Key) (hpc : entry.pc = none) :
    Matched keyOf
      (OutboxWorld.setEntry { s with composed := (id, entry.r2Key) :: s.composed } id entry) := by
  have hnew : s.entries id = none := by
    cases hid : s.entries id with
    | none => rfl
    | some old => exact absurd rfl (hfresh _ (h.known id old hid)).1
  have hentries : ∀ {i e}, Function.update s.entries id (some entry) i = some e →
      (i = id ∧ e = entry) ∨ (i ≠ id ∧ s.entries i = some e) := by
    intro i e hi
    by_cases he : i = id
    · subst he
      exact Or.inl ⟨rfl, by simpa [eq_comm] using hi⟩
    · exact Or.inr ⟨he, by simpa [Function.update_of_ne he] using hi⟩
  have hkeeps : ∀ key,
      KeepsAt s
        (OutboxWorld.setEntry { s with composed := (id, entry.r2Key) :: s.composed } id entry)
          key := by
    refine fun key => ⟨rfl, fun i e hi _ => ⟨e, ?_, .refl e⟩⟩
    have hne : i ≠ id := fun he => by simp [he, hnew] at hi
    exact (Function.update_of_ne hne _ _).trans hi
  refine h.change rfl rfl (fun key => Or.inl (hkeeps key)) (fun i e hi => ?_)
    (fun i i' e e' hi hi' hk => ?_) (fun _ _ hq => Or.inl hq) fun i e hi => ?_
  · rcases hentries hi with ⟨rfl, rfl⟩ | ⟨_, hi⟩
    · exact List.mem_cons_self ..
    · exact List.mem_cons_of_mem _ (h.known i e hi)
  · rcases hentries hi with ⟨rfl, rfl⟩ | ⟨_, hold⟩
    · rcases hentries hi' with ⟨rfl, _⟩ | ⟨_, hold'⟩
      · rfl
      · exact absurd hk.symm (hfresh _ (h.known i' e' hold')).2
    · rcases hentries hi' with ⟨rfl, rfl⟩ | ⟨_, hold'⟩
      · exact absurd hk (hfresh _ (h.known i e hold)).2
      · exact h.apart i i' e e' hold hold' hk
  · rcases hentries hi with ⟨rfl, rfl⟩ | ⟨_, hi⟩
    · simp only [Holds, hpc]
    · exact (h.holds i e hi).keep (fun _ _ hq => hq) (hkeeps _) (.refl e) rfl

/-- A request that is no honest sender's touches no attachment. -/
theorem covered_of_allowed {r : RequestId} {job : Job} (hallow : allowed (.start r job) = true)
    (hnew : job.isNew = true) : Covered keyOf s job := by
  cases job with
  | upload token req stage => cases hallow
  | send token body stage =>
    refine ⟨fun key c hp => (by cases hp), fun b key hp hkey => ?_⟩
    cases stage with
    | received =>
      simp only [Job.pendingRow] at hp
      split_ifs at hp
      obtain rfl := Option.some.inj hp
      rw [allowed, hkey] at hallow
      cases hallow
    | _ => cases hnew
  | ack token id stage => exact ⟨fun key c hp => (by cases hp), fun b key hp => (by cases hp)⟩
  | purge selection stage => exact ⟨fun key c hp => (by cases hp), fun b key hp => (by cases hp)⟩
  | sweep olderThan stage => exact ⟨fun key c hp => (by cases hp), fun b key hp => (by cases hp)⟩

theorem Matched.run {r : RequestId} {m : Moment} (h : Matched keyOf s) {server : FileServer}
    (hs : s.server.run r m = some server) : Matched keyOf { s with server } := by
  obtain ⟨job, hjob, rfl⟩ := Option.map_eq_some_iff.mp hs
  have hw := @Job.next_jobWrites m s.server.server.db s.server.files job
  generalize job.next m s.server.server.db s.server.files = p at hw ⊢
  obtain ⟨db', job'⟩ := p
  refine h.serve h.sound (le_refl _) (fun key c hc => ?_) (fun row hrow => ?_)
    (fun q other hq => ?_)
    fun q other hq => ?_
  · exact (hw.objects key c hc).imp_right fun hp => h.puts r job key c hjob hp
  · refine (hw.messages row hrow).imp_right fun ⟨auth, body, now, hp, he⟩ => ?_
    exact ⟨r, job, auth, body, now, hjob, hp, he⟩
  · by_cases he : q = r
    · subst he
      obtain rfl : job' = other := by simpa using hq
      exact ⟨job, hjob, hw.puts, hw.rows⟩
    · exact ⟨other, by simpa [Function.update_of_ne he] using hq, fun _ hp => hp, fun _ hp => hp⟩
  · by_cases he : q = r
    · subst he
      obtain rfl := Option.some.inj (hjob.symm.trans hq)
      exact ⟨job', Function.update_self .., hw.uploads, hw.lands⟩
    · exact ⟨other, (Function.update_of_ne he _ _).trans hq, rfl, Or.inl⟩

theorem Matched.other {e : FileEvent} (h : Matched keyOf s) (hallow : allowed e = true)
    {server : FileServer} (hs : s.server.step e = some server) :
    Matched keyOf { s with server } := by
  cases e with
  | server e =>
    obtain ⟨next, hnext, rfl⟩ := Option.map_eq_some_iff.mp hs
    obtain ⟨hsound, hle⟩ := h.sound.step hnext
    obtain ⟨deliveryStatus, hdrop⟩ := FileServer.dropDeliveries_eq s.server.server e s.server.files
    rw [hdrop]
    exact h.serve hsound hle (fun _ _ hc => Or.inl hc) (fun _ hrow => Or.inl hrow)
      (fun q job hq => ⟨job, hq, fun _ hp => hp, fun _ hp => hp⟩) fun q job hq =>
        ⟨job, hq, rfl, Or.inl⟩
  | start r job =>
    simp only [FileServer.step, FileServer.start] at hs
    split_ifs at hs with hnew
    obtain rfl := Option.some.inj hs
    have hkeeps : ∀ key, KeepsAt s { s with server := { s.server with
        jobs := Function.update s.server.jobs r (some job) } } key :=
      fun key => ⟨rfl, fun i e hi _ => ⟨e, hi, .refl e⟩⟩
    have hnone : s.server.jobs r = none := Option.isNone_iff_eq_none.mp hnew.2
    refine h.change rfl rfl (fun key => Or.inl (hkeeps key)) h.known h.apart (fun q other hq => ?_)
      fun i e hi => (h.holds i e hi).keep (fun q other hq => ?_) (hkeeps _) (.refl e) rfl
    · by_cases he : q = r
      · subst he
        obtain rfl : job = other := by simpa using hq
        exact Or.inr (covered_of_allowed hallow hnew.1)
      · exact Or.inl ((Function.update_of_ne he _ _).symm.trans hq)
    · have hne : q ≠ r := fun he => by simp [he, hnone] at hq
      exact (Function.update_of_ne hne _ _).trans hq
  | run r m => exact h.run hs

theorem matched_founded {groupId : GroupId} {founder : SlotDevice} {token : Token}
    {elsewhere : List DeviceId} {foreign : List MessageId} (hid : founder.id ∉ elsewhere) :
    Matched keyOf (OutboxWorld.founded groupId founder token elsewhere foreign) := by
  refine ⟨Server.sound_founded hid, fun _ _ hi => (nomatch hi), fun _ _ _ _ hi => (nomatch hi),
    fun _ _ hi => (nomatch hi), fun _ _ _ _ hq => (nomatch hq), fun _ _ _ _ hq => (nomatch hq),
    fun row hrow => ?_⟩
  exact absurd hrow Table.not_mem_empty

theorem matched_step {l : OutboxLabel} (h : Matched keyOf s) (hok : Settled s l)
    (hs : step keyOf s l = some s') : Matched keyOf s' := by
  have hchange : ∀ {id : MessageId} {f : Entry → Option Entry}, s.change id f = some s' →
      ∃ entry entry', s.entries id = some entry ∧ f entry = some entry' ∧
      s' = s.setEntry id entry' := by
    intro id f hc
    simp only [change, Option.bind_eq_bind, Option.bind_eq_some_iff] at hc
    obtain ⟨entry, hid, entry', hf, hc⟩ := hc
    exact ⟨entry, entry', hid, hf, (Option.some.inj hc).symm⟩
  have hstatus : ∀ {id : MessageId} {entry entry' : Entry}, s.entries id = some entry →
      entry.Keeps entry' → entry'.pc = entry.pc → Matched keyOf (s.setEntry id entry') := by
    intro id entry entry' hid hk hpc
    exact h.setEntry hid hk ((h.holds id entry hid).keep (fun _ _ hq => hq)
      (keepsAt_acted hid fun _ => hk) hk hpc)
  cases l with
  | compose id cli token r2Key file size =>
    simp only [step, OutboxWorld.compose] at hs
    split at hs
    · next hfresh =>
      obtain rfl := Option.some.inj hs
      exact h.composed hfresh rfl
    · cases hs
  | «begin» id ring => exact h.begin hs
  | upload id iv r => exact h.upload hok hs
  | resend id r => exact h.resend hs
  | receive id e r => exact h.receive hs
  | giveUp id =>
    obtain ⟨entry, entry', hid, hf, rfl⟩ := hchange hs
    split_ifs at hf
    obtain rfl := Option.some.inj hf
    exact h.ends hid Entry.ends_afterGivingUp
  | kill id =>
    obtain ⟨entry, entry', hid, hf, rfl⟩ := hchange hs
    obtain rfl := Option.some.inj hf
    exact h.ends hid Entry.ends_afterKill
  | retry id =>
    obtain ⟨entry, entry', hid, hf, rfl⟩ := hchange hs
    unfold retry at hf
    split_ifs at hf
    obtain rfl := Option.some.inj hf
    exact hstatus hid ⟨rfl, rfl, rfl, rfl⟩ rfl
  | delete id =>
    obtain ⟨entry, entry', hid, hf, rfl⟩ := hchange hs
    obtain rfl := Option.some.inj hf
    exact hstatus hid ⟨rfl, rfl, rfl, rfl⟩ rfl
  | other e =>
    simp only [step] at hs
    split_ifs at hs with hallow
    obtain ⟨server, hserver, rfl⟩ := Option.map_eq_some_iff.mp hs
    exact h.other hallow hserver

section
variable {groupId : GroupId} {founder : SlotDevice} {token : Token} {elsewhere : List DeviceId}
  {foreign : List MessageId}

/-- In every settled run, the object of a stored message's attachment is, if there,
the encryption of its sender's file under the epoch and the vector stored with it. -/
theorem attachment_matches (hid : founder.id ∉ elsewhere)
    (h : Runs.ReachableVia (step keyOf) Settled
      (OutboxWorld.founded groupId founder token elsewhere foreign) s) :
    ∀ row ∈ s.server.files.messages, ∀ key, row.fileR2Key = some key →
      ∃ entry iv, s.entries row.id = some entry ∧ entry.r2Key = key ∧ row.fileIv = some iv ∧
        ∀ c, s.server.files.objects key = some c →
          c = ⟨keyOf row.keyEpoch, iv, row.id, entry.file⟩ := by
  have hmatched : Matched keyOf s :=
    h.invariant (matched_founded hid) fun _ _ _ hm hok hs => matched_step hm hok hs
  intro row hrow key hkey
  obtain ⟨entry, iv, hid, hr2, hiv, hused, hclear⟩ := hmatched.rows row hrow key hkey
  refine ⟨entry, iv, hid, hr2, hiv, fun c hc => ?_⟩
  have hcontent := hclear c (hr2.symm ▸ hc)
  rw [Entry.content, hused] at hcontent
  exact (Option.some.inj hcontent).symm

end

def senderStart : OutboxWorld := .founded 7 ⟨1, 101, none, false⟩ 11 [] []

def spaceKey (epoch : ℕ) : GroupKey := 999 + epoch

def senderRing : Keyring := ⟨1, [(1, 1000)]⟩

def turns (r : RequestId) (n : ℕ) : List OutboxLabel :=
  List.replicate n (.other (FileServer.turn r (.stored 5)))

/-- Device 2 is linked, and device 1 writes a message with a file. -/
def composing (cli : Bool) : List OutboxLabel :=
  FileServer.filesLinking.map .other ++ [.compose 901 cli 11 7001 42 5, .begin 901 senderRing]

/-- The app is killed while it uploads. On the next start it encrypts the file as
before, and sends the message. -/
def restartedRun : List OutboxLabel :=
  composing false ++ [.upload 901 21 10] ++ turns 10 2 ++
    [.kill 901, .begin 901 senderRing, .upload 901 22 12] ++ turns 12 4 ++
      [.receive 901 ⟨none, (31, 32), none⟩ 11] ++ turns 11 5 ++ turns 10 1

/-- A check that an encryption goes by the choice made before. -/
def settledStep (s : OutboxWorld) : OutboxLabel → Bool
  | .upload id iv _ => (s.entries id).all fun entry =>
      match entry.pc, entry.used with
      | some (.sealing epoch _), some u => decide (u = (epoch, entry.iv.getD iv))
      | _, _ => true
  | _ => true

theorem settled_of_settledStep {l : OutboxLabel} (h : settledStep s l = true) : Settled s l := by
  cases l with
  | upload id iv r =>
    intro entry epoch key u hid hpc hused hne
    simp only [settledStep, hid, Option.all_some, hpc, hused, decide_eq_true_eq] at h
    exact absurd h hne
  | _ => trivial

theorem attachment_matches_restartedRun :
    ∃ s, Runs.replayVia (step spaceKey) (fun s l => settledStep s l = true) senderStart
      restartedRun = some s ∧
      (∃ row ∈ s.server.files.messages, row.fileR2Key = some 7001 ∧
        (s.server.files.objects 7001).isSome) ∧
      ∀ row ∈ s.server.files.messages, ∀ key, row.fileR2Key = some key →
        ∃ entry iv, s.entries row.id = some entry ∧ entry.r2Key = key ∧ row.fileIv = some iv ∧
          ∀ c, s.server.files.objects key = some c →
            c = ⟨spaceKey row.keyEpoch, iv, row.id, entry.file⟩ := by
  obtain ⟨s, hs, hrow⟩ :=
    (Option.any_eq_true _ _).mp (by decide +kernel : ((Runs.replayVia (step spaceKey)
    (fun s l => settledStep s l = true) senderStart restartedRun).any fun s =>
      decide (∃ row ∈ s.server.files.messages, row.fileR2Key = some 7001 ∧
        (s.server.files.objects 7001).isSome)) = true)
  have hrun := (Runs.reachableVia_of_replayVia hs).mono fun _ _ hok => settled_of_settledStep hok
  exact ⟨s, hs, of_decide_eq_true hrow, attachment_matches (by decide) hrun⟩

def startedOverRun : List OutboxLabel :=
  composing true ++ [.upload 901 21 10] ++ turns 10 4 ++ [.receive 901 ⟨none, (31, 32), none⟩ 11] ++
    turns 11 5 ++ [.resend 901 12, .other (.run 12 ⟨1, true, .stored 5, 100⟩),
      .receive 901 ⟨none, (31, 32), none⟩ 13, .begin 901 senderRing,
      .upload 901 22 13] ++ turns 13 4

theorem attachment_reencrypted : ∃ s, Runs.Reachable (step spaceKey) senderStart s ∧
    ∃ row ∈ s.server.files.messages, ∃ key iv c, row.fileR2Key = some key ∧ row.fileIv = some iv ∧
      s.server.files.objects key = some c ∧ ∀ file,
      c ≠ ⟨spaceKey row.keyEpoch, iv, row.id, file⟩ := by
  obtain ⟨s, hs, ⟨row, hrow, hkey, hiv⟩, hobj⟩ :=
    @Runs.exists_reachable_of_replay _ _ (step spaceKey) senderStart startedOverRun
      (fun s =>
        (∃ row ∈ s.server.files.messages, row.fileR2Key = some 7001 ∧ row.fileIv = some 21) ∧
        s.server.files.objects 7001 = some ⟨1000, 22, 901, 42⟩) _ (by decide +kernel)
  refine ⟨s, hs, row, hrow, 7001, 21, _, hkey, hiv, hobj, fun file he => ?_⟩
  simp at he

end OutboxWorld
end SendSelf

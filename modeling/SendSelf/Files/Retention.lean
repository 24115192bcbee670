import SendSelf.Files.FileServer

/-!
# The attachment of a stored message stays

A message's row, the row that accounts for its file and the object itself are
written and removed by separate steps, and cleaning a key does not ask whether a
message references it. The attachment stays in every run in which the cleaning of
a key begins only when nothing references the key or is about to, and a message
finds its file only when nobody is cleaning the key and the file is accounted for.
-/
namespace SendSelf.FileServer

/-- A message references the key, or a job has found its object and is about to
insert one that does. -/
def References (s : FileServer) (key : FileKey) : Prop :=
  (∃ row ∈ s.files.messages, row.fileR2Key = some key) ∨
    ∃ r job, s.jobs r = some job ∧ job.expects = some key

/-- The condition on a step of a job. -/
def Orderly (s : FileServer) : FileEvent → Prop
  | .run r m => ∀ job, s.jobs r = some job →
      (∀ key ∈ job.begins m s.server.db s.files,
        (∀ row ∈ s.files.messages, row.fileR2Key = some key →
          row.id ∈ job.deletes.map FoundMessage.id) ∧
          ∀ q other, q ≠ r → s.jobs q = some other → other.expects ≠ some key) ∧
      ∀ key, job.finds s.files = some key → Accounted s.files.uploads key ∧
        ∀ q other, s.jobs q = some other → key ∉ other.cleaning
  | _ => True

/-- Whatever is referenced is there, accounted for, and not being cleaned. -/
def Kept (s : FileServer) : Prop := ∀ key, s.References key → (s.files.objects key).isSome ∧
  Accounted s.files.uploads key ∧ ∀ r job, s.jobs r = some job → key ∉ job.cleaning

variable {s s' : FileServer}

theorem kept_of_same (h : Kept s) (hm : s'.files.messages = s.files.messages)
    (ho : s'.files.objects = s.files.objects) (hu : s'.files.uploads = s.files.uploads)
    (hj : ∀ r job, s'.jobs r = some job → s.jobs r = some job ∨
      (job.expects = none ∧ job.cleaning = [])) :
    Kept s' := by
  intro key href
  have hold : s.References key := by
    rcases href with ⟨row, hrow, hk⟩ | ⟨r, job, hr, he⟩
    · exact Or.inl ⟨row, hm ▸ hrow, hk⟩
    · rcases hj r job hr with hr | ⟨hn, _⟩
      · exact Or.inr ⟨r, job, hr, he⟩
      · simp [hn] at he
  obtain ⟨hobj, hacc, hclean⟩ := h key hold
  refine ⟨ho ▸ hobj, hu ▸ hacc, fun r job hr => ?_⟩
  rcases hj r job hr with hr | ⟨_, hc⟩
  · exact hclean r job hr
  · simp [hc]

theorem kept_run {r : RequestId} {m : Moment} (h : Kept s) (hok : Orderly s (.run r m))
    (hs : s.run r m = some s') : Kept s' := by
  obtain ⟨job, hjob, rfl⟩ := Option.map_eq_some_iff.mp hs
  have hstep := @Job.next_jobStep m s.server.db s.files job
  obtain ⟨hbegin, hfind⟩ := hok job hjob
  generalize job.next m s.server.db s.files = p at hstep ⊢
  obtain ⟨db', job'⟩ := p
  intro key href
  have hjobs : ∀ {q other}, Function.update s.jobs r (some job') q = some other →
      (q = r ∧ other = job') ∨ (q ≠ r ∧ s.jobs q = some other) := by
    intro q other hq
    by_cases he : q = r
    · subst he
      exact Or.inl ⟨rfl, by simpa [eq_comm] using hq⟩
    · exact Or.inr ⟨he, by simpa [Function.update_of_ne he] using hq⟩
  have hbase : (s.files.objects key).isSome ∧ Accounted s.files.uploads key ∧
      ∀ q other, s.jobs q = some other → key ∉ other.cleaning := by
    rcases href with ⟨row, hrow, hk⟩ | ⟨q, other, hq, he⟩
    · rcases hstep.messages row hrow with ⟨hold, _⟩ | ⟨hins, _⟩
      · exact h key (Or.inl ⟨row, hold, hk⟩)
      · exact h key (Or.inr ⟨r, job, hjob, hins.symm.trans hk⟩)
    · rcases hjobs hq with ⟨_, rfl⟩ | ⟨_, hq⟩
      · rcases hstep.expects key he with he | hf
        · exact h key (Or.inr ⟨r, job, hjob, he⟩)
        · exact ⟨Job.isSome_of_finds hf, hfind key hf⟩
      · exact h key (Or.inr ⟨q, other, hq, he⟩)
  obtain ⟨hobj, hacc, hclean⟩ := hbase
  have hquiet : key ∉ job'.cleaning := by
    intro hc
    obtain ⟨hrows, hothers⟩ := hbegin key ((hstep.cleaning key hc).resolve_left (hclean r job hjob))
    rcases href with ⟨row, hrow, hk⟩ | ⟨q, other, hq, he⟩
    · rcases hstep.messages row hrow with ⟨hold, hkeep⟩ | ⟨_, hnone⟩
      · exact hkeep (hrows row hold hk)
      · simp [hnone] at hc
    · rcases hjobs hq with ⟨_, rfl⟩ | ⟨hne, hq⟩
      · have hnone := hstep.single (by simp [he])
        simp [hnone] at hc
      · exact hothers q other hne hq he
  refine ⟨(hstep.objects key hobj).resolve_right (hclean r job hjob),
    (hstep.uploads key hacc).resolve_right hquiet, fun q other hq => ?_⟩
  rcases hjobs hq with ⟨_, rfl⟩ | ⟨_, hq⟩
  · exact hquiet
  · exact hclean q other hq

theorem kept_step {e : FileEvent} (h : Kept s) (hok : Orderly s e) (hs : s.step e = some s') :
    Kept s' := by
  cases e with
  | server e =>
    obtain ⟨server, _, rfl⟩ := Option.map_eq_some_iff.mp hs
    obtain ⟨deliveryStatus, hdrop⟩ := dropDeliveries_eq s.server e s.files
    rw [hdrop]
    exact kept_of_same h rfl rfl rfl fun _ _ hj => Or.inl hj
  | start r job =>
    simp only [step, start] at hs
    split_ifs at hs with hnew
    obtain rfl := Option.some.inj hs
    refine kept_of_same h rfl rfl rfl fun q other hq => ?_
    by_cases he : q = r
    · subst he
      obtain rfl : job = other := by simpa using hq
      exact Or.inr (Job.quiet_of_isNew hnew.1)
    · exact Or.inl (by simpa [Function.update_of_ne he] using hq)
  | run r m => exact kept_run h hok hs

section
variable {groupId : GroupId} {founder : SlotDevice} {token : Token} {elsewhere : List DeviceId}
  {foreign : List MessageId}

/-- In every orderly run, the object of every stored message's attachment is in the
bucket, and a row of `uploads` accounts for it. -/
theorem attachment_kept (h : Runs.ReachableVia step Orderly
      (FileServer.founded groupId founder token elsewhere foreign) s) :
    ∀ row ∈ s.files.messages, ∀ key, row.fileR2Key = some key →
      (s.files.objects key).isSome ∧ Accounted s.files.uploads key := by
  have hkept : Kept s := by
    refine h.invariant ?_ fun _ _ _ hk hok hs => kept_step hk hok hs
    intro key href
    rcases href with ⟨row, hrow, _⟩ | ⟨r, job, hr, _⟩
    · exact absurd hrow Table.not_mem_empty
    · cases hr
  intro row hrow key hk
  obtain ⟨hobj, hacc, _⟩ := hkept key (Or.inl ⟨row, hrow, hk⟩)
  exact ⟨hobj, hacc⟩

end

/-- A space in which device 1 has linked device 2. -/
def filesStart : FileServer := .founded 7 ⟨1, 101, none, false⟩ 11 [] []

def filesLinking : List FileEvent :=
  [.server (.reserve 52 ⟨2, 102, none, false⟩),
   .server (.receive 1 11 (.completePairing 52
     ⟨wrapPairingPackage 102 ⟨1000, 1, 12, 7⟩ 52, 102, none, sha256Hex 12, 1⟩)),
   .server (.advance 1 0 false), .server (.advance 1 0 false), .server (.advance 1 0 false),
   .server (.advance 1 0 false)]

def uploading (r : RequestId) : FileEvent :=
  .start r (.upload 11 ⟨7001, some 5, some ⟨1000, 21, 901, 42⟩⟩ .received)

def sending (r : RequestId) : FileEvent :=
  .start r
    (.send 11 ⟨901, 1, none, none, some 7001, some 21, some 31, some 32, none, none⟩ .received)

def turn (r : RequestId) (transfer : Transfer) : FileEvent := .run r ⟨1, false, transfer, 100⟩

/-- Device 1 uploads a file and sends the message it belongs to. -/
def sentRun : List FileEvent :=
  filesLinking ++ [uploading 10] ++ List.replicate 4 (turn 10 (.stored 5)) ++
    [sending 11] ++ List.replicate 5 (turn 11 (.stored 5))

/-- A check that a step is orderly, for runs with few requests that clean nothing. -/
def orderlyStep (s : FileServer) : FileEvent → Bool
  | .run r m => decide (r < 32) && (s.jobs r).all fun job =>
      decide (job.begins m s.server.db s.files = []) && (job.finds s.files).all fun key =>
        decide (Accounted s.files.uploads key) &&
          (List.range 32).all fun q => (s.jobs q).all fun other => decide (key ∉ other.cleaning)
  | .start r _ => decide (r < 32)
  | .server _ => true

theorem orderly_of_orderlyStep {e : FileEvent} (hfew : ∀ q, 32 ≤ q → s.jobs q = none)
    (h : orderlyStep s e = true) : Orderly s e := by
  cases e with
  | run r m =>
    intro job hjob
    simp only [orderlyStep, hjob, Option.all_some, Bool.and_eq_true, decide_eq_true_eq] at h
    obtain ⟨_, hbegin, hfind⟩ := h
    refine ⟨fun key hk => ?_, fun key hk => ?_⟩
    · simp [hbegin] at hk
    · simp only [hk, Option.all_some, Bool.and_eq_true, decide_eq_true_eq, List.all_eq_true,
        List.mem_range] at hfind
      refine ⟨hfind.1, fun q other hq => ?_⟩
      rcases Nat.lt_or_ge q 32 with hlt | hge
      · have hall := hfind.2 q hlt
        rw [hq, Option.all_some, decide_eq_true_eq] at hall
        exact hall
      · simp [hfew q hge] at hq
  | _ => trivial

theorem few_step {e : FileEvent} (hfew : ∀ q, 32 ≤ q → s.jobs q = none) (h : orderlyStep s e = true)
    (hs : s.step e = some s') : ∀ q, 32 ≤ q → s'.jobs q = none := by
  intro q hq
  cases e with
  | server e =>
    obtain ⟨_, _, rfl⟩ := Option.map_eq_some_iff.mp hs
    exact hfew q hq
  | start r job =>
    have hr : r < 32 := of_decide_eq_true h
    simp only [step, start] at hs
    split_ifs at hs
    obtain rfl := Option.some.inj hs
    have hne : q ≠ r := (Nat.lt_of_lt_of_le hr hq).ne'
    exact (Function.update_of_ne hne _ _).trans (hfew q hq)
  | run r m =>
    simp only [orderlyStep, Bool.and_eq_true, decide_eq_true_eq] at h
    obtain ⟨job, _, rfl⟩ := Option.map_eq_some_iff.mp hs
    have hne : q ≠ r := (Nat.lt_of_lt_of_le h.1 hq).ne'
    exact (Function.update_of_ne hne _ _).trans (hfew q hq)

theorem attachment_kept_sentRun :
    ∃ s, Runs.replayVia step (fun s e => orderlyStep s e = true) filesStart sentRun = some s ∧
      (∃ row ∈ s.files.messages, row.fileR2Key = some 7001) ∧
      ∀ row ∈ s.files.messages, ∀ key, row.fileR2Key = some key →
        (s.files.objects key).isSome ∧ Accounted s.files.uploads key := by
  obtain ⟨s, hs, hrow⟩ := (Option.any_eq_true _ _).mp (by decide +kernel : ((Runs.replayVia step
    (fun s e => orderlyStep s e = true) filesStart sentRun).any fun s =>
      decide (∃ row ∈ s.files.messages, row.fileR2Key = some 7001)) = true)
  have hrun : Runs.ReachableVia step Orderly filesStart s :=
    (Runs.reachableVia_of_replayVia hs).mono_with (I := fun s => ∀ q, 32 ≤ q → s.jobs q = none)
      (fun _ _ => rfl) (fun _ _ _ hfew hok hs => few_step hfew hok hs)
      fun _ _ hfew hok => orderly_of_orderlyStep hfew hok
  exact ⟨s, hs, of_decide_eq_true hrow, attachment_kept hrun⟩

def abortedRun : List FileEvent :=
  sentRun ++ [uploading 12] ++ List.replicate 5 (turn 12 (.copyFailed false false))

theorem attachment_destroyed : ∃ s, Runs.Reachable step filesStart s ∧
    ∃ row ∈ s.files.messages, ∃ key, row.fileR2Key = some key ∧ s.files.objects key = none ∧
      ¬ Accounted s.files.uploads key := by
  obtain ⟨s, hs, ⟨row, hrow, hk⟩, hobj, hacc⟩ :=
    @Runs.exists_reachable_of_replay _ _ step filesStart abortedRun
      (fun s => (∃ row ∈ s.files.messages, row.fileR2Key = some 7001) ∧
        s.files.objects 7001 = none ∧
        ¬ Accounted s.files.uploads 7001) _ (by decide +kernel)
  exact ⟨s, hs, row, hrow, 7001, hk, hobj, hacc⟩

end SendSelf.FileServer

import FileExtractor.Application.Answers

/-!
# The received names that are not processed yet

`outstanding` counts the names that a run has received and not processed: the ones in `pending`, and
in a batch also the ones of the batch. `Held DownloadTask.Owes` says that the copy has received
exactly as many names more than it has processed (`resume_owes`).

The code gives the outstanding names back in its `except` clauses of the batch. It does not where
`get_file_names` raises while names are pending, nor where a 403 ends beyond the last time of
`datetime`: these are the exceptions that `GivesBack` leaves out.
-/

namespace FileExtractor

/-- A task that has received `n` names more than it has processed. -/
def DownloadTask.Owes (n : Nat) (t : DownloadTask) : Prop :=
  0 ≤ t.processedFiles ∧ t.receivedFiles = t.processedFiles + n

namespace Handler

/-- The names that have been received and not processed. -/
def outstanding : Handler → Nat
  | names f | storeReceived f | storeProcessed f => f.pending.length
  | download f | extract f _ | storeHeartbeat f _ _ | checkExists f _ _ | upload f _ _ =>
    f.batch.length + f.pending.length
  | record f _ _ _ | mark f | deleteObject f _ _ _ _ | deleteRows f _ _ _ =>
    f.batch.length + f.pending.length
  | getTask | storeBlocked _ | storeSuccess _ | storeFailed _ | ended _ => 0

/-- These names, in the order in which they are processed. -/
def unprocessed : Handler → List String
  | names f | storeReceived f | storeProcessed f => f.pending
  | download f | extract f _ | storeHeartbeat f _ _ | checkExists f _ _ | upload f _ _ =>
    f.batch ++ f.pending
  | record f _ _ _ | mark f | deleteObject f _ _ _ _ | deleteRows f _ _ _ => f.batch ++ f.pending
  | getTask | storeBlocked _ | storeSuccess _ | storeFailed _ | ended _ => []

/-- The writes of a copy whose counters or whose status have changed. -/
def settles : Handler → Bool
  | storeReceived _ | storeProcessed _ | storeBlocked _ | storeSuccess _ | storeFailed _ => true
  | _ => false

/-- A batch has one to three names, and there are some once names have been received. -/
def Fed : Handler → Prop
  | storeReceived f => f.pending ≠ []
  | download f | extract f _ | storeHeartbeat f _ _ | checkExists f _ _ | upload f _ _ =>
    f.batch ≠ [] ∧ f.batch.length ≤ 3
  | record f _ _ _ | mark f | deleteObject f _ _ _ _ | deleteRows f _ _ _ =>
    f.batch ≠ [] ∧ f.batch.length ≤ 3
  | getTask | names _ | storeProcessed _ => True
  | storeBlocked _ | storeSuccess _ | storeFailed _ | ended _ => True

/-- The awaits of an answer of the external API. -/
def callsApi : Handler → Bool
  | names _ | download _ | extract _ _ | mark _ => true
  | _ => false

/-- The code gives all outstanding names back if this answer makes it end. -/
def GivesBack (now : Time) (h : Handler) (a : Except Exn Answer) : Prop :=
  (∀ f e, h = names f → a = .error e → f.pending = []) ∧
    ∀ f r, h.batchFrame = some f → h.blockOf a = some r → 60 < r → (addSeconds now r).isSome

variable {sha256 : Bytes → Digest} {now : Time} {f : Frame} {h h' : Handler}

theorem batching_batchFrame (hb : h.batching = some f) : h.batchFrame = some f := by
  cases h <;> first | exact hb | cases hb

theorem outstanding_of_batchFrame (hf : h.batchFrame = some f) :
    h.outstanding = f.batch.length + f.pending.length := by
  cases h <;> simp only [batchFrame, Option.some.injEq, reduceCtorEq] at hf <;> subst hf <;> rfl

/-! ## The size of a batch -/

theorem Fed.batch (hh : h.Fed) (hf : h.batchFrame = some f) :
    f.batch ≠ [] ∧ f.batch.length ≤ 3 := by
  cases h <;> simp only [batchFrame, Option.some.injEq, reduceCtorEq] at hf <;> subst hf <;>
    exact hh

theorem fed_nextBatch (hp : f.pending ≠ []) : (nextBatch f).Fed :=
  ⟨by simp [hp], List.length_take_le 3 f.pending⟩

theorem fed_ending {e : Exn} (hE : Ending now f e h) : h.Fed := by
  cases hE <;> trivial

theorem fed_cleaning {e : Exn} {files : List File} (hc : Cleaning now f e files h)
    (hb : f.batch ≠ [] ∧ f.batch.length ≤ 3) : h.Fed := by
  cases hc with
  | file file todo => exact hb
  | finished h hE => exact fed_ending hE

theorem failTask_fed (e : Exn) : (failTask now f e).Fed := by
  unfold failTask; split <;> trivial

theorem Answered.fed {a : Answer} (ha : Answered sha256 now h a h') (hf : h.Fed) : h'.Fed := by
  cases ha with
  | named f fileNames hn =>
    show f.pending ++ fileNames ≠ []
    simp [hn]
  | leftover f hp => exact fed_nextBatch hp
  | received f => exact fed_nextBatch hf
  | again f hp => exact fed_nextBatch fun e => by rw [e] at hp; cases hp
  | rowsDeleted f e file todo h hc => exact fed_cleaning hc hf
  | started | absent | completed | marked | asking | closed => trivial
  | _ => exact hf

theorem Failed.fed {e : Exn} (ha : Failed now h e h') (hf : h.Fed) : h'.Fed := by
  cases ha with
  | names f e h hE => exact fed_ending hE
  | batch f h hh e h' hc => exact fed_cleaning hc (hf.batch (batching_batchFrame hh))
  | object f e key file todo e' => exact hf
  | rows f e file todo e' h hc => exact fed_cleaning hc hf
  | closing f h hh e => exact failTask_fed e
  | unread | storing | unstored => trivial

/-- **The size of a batch.** -/
theorem resume_fed {a : Except Exn Answer} (hrun : h.Running) (hk : h.Keyed) (hf : h.Fed)
    (hr : h.resume sha256 now a = some h') : h'.Fed := by
  cases a with
  | ok a => exact (resume_answered hrun hk hr).fed hf
  | error e => exact (resume_failed hrun hk hr).fed hf

/-! ## The counters of the copy -/

theorem ending_owes {e : Exn} (hE : Ending now f e h) (hf : f.task.Owes 0) :
    h.Held DownloadTask.Owes := by
  cases hE with
  | failed e he => exact ⟨rfl, hf⟩
  | blocked r u hr hu => exact ⟨rfl, hf⟩
  | overflow r e hr hu => trivial

theorem giveBack_owes (hf : f.task.Owes (f.batch.length + f.pending.length)) :
    (giveBack f).task.Owes 0 := by
  obtain ⟨h0, hr⟩ := hf
  refine ⟨h0, ?_⟩
  simp only [giveBack, DownloadTask.decreaseReceived]
  omega

theorem nextBatch_outstanding : (nextBatch f).outstanding = f.pending.length := by
  simp only [nextBatch, outstanding, List.length_take, List.length_drop]
  omega

theorem cleaning_owes {e : Exn} {files : List File} (hc : Cleaning now f e files h)
    (hs : f.task.status = .running) (hf : f.task.Owes (f.batch.length + f.pending.length)) :
    h.Held DownloadTask.Owes := by
  cases hc with
  | file file todo => exact ⟨hs, hf⟩
  | finished h hE => exact ending_owes hE (giveBack_owes hf)

/-- An answer keeps the balance of the copy. -/
theorem Answered.owes {a : Answer} (ha : Answered sha256 now h a h')
    (hh : h.Held DownloadTask.Owes) (hread : ∀ t, a = .task (some t) → t.Owes 0)
    (hrun : h.Running) : h'.Held DownloadTask.Owes := by
  cases ha with
  | started t => exact ⟨.inr rfl, hread t rfl⟩
  | absent => trivial
  | named f fileNames hn =>
    refine ⟨hrun f rfl, hh.2.1, ?_⟩
    have := hh.2.2
    simp only [List.length_append]
    omega
  | leftover f hp => exact held_nextBatch (hrun f rfl) hh.2
  | completed f hp => exact ⟨rfl, by have := hh.2; rwa [hp] at this⟩
  | received f => exact held_nextBatch hh.1 hh.2
  | marked f =>
    obtain ⟨hs, h0, hr⟩ := hh
    exact ⟨hs, by simp only; omega, by simp only; omega⟩
  | asking f hp => exact ⟨.inl hh.1, hh.2⟩
  | again f hp => exact held_nextBatch hh.1 hh.2
  | rowsDeleted f e file todo h hc => exact cleaning_owes hc hh.1 hh.2
  | closed f h hh => trivial
  | _ => exact hh

/-- So does an exception of the API where all names are given back. -/
theorem Failed.owes {e : Exn} (ha : Failed now h e h') (hc : h.callsApi = true)
    (hg : GivesBack now h (.error e)) (hh : h.Held DownloadTask.Owes) :
    h'.Held DownloadTask.Owes := by
  cases ha with
  | names f e h hE =>
    refine ending_owes hE ?_
    have hj := hh.2
    rwa [hg.1 f e rfl rfl] at hj
  | batch f h hb e h' hcl =>
    obtain ⟨hs, hj⟩ := hh.batch (batching_batchFrame hb)
    exact cleaning_owes hcl hs hj
  | storing f h hh => rcases hh with rfl | rfl <;> cases hc
  | closing f h hh => rcases hh with rfl | rfl <;> cases hc
  | unread | object | rows | unstored => cases hc

/-! ## What the stored row owes -/

theorem ending_settles {e : Exn} (hE : Ending now f e h) (hs : h.settles = false) :
    ∃ r, e = .blocked r ∧ 60 < r ∧ addSeconds now r = none := by
  cases hE with
  | failed e he => cases hs
  | blocked r u hr hu => cases hs
  | overflow r e hr hu => exact ⟨r, rfl, hr, hu⟩

theorem cleaning_outstanding {a : Except Exn Answer} {e : Exn} {files : List File}
    (hc : Cleaning now f e files h') (hf : h.batchFrame = some f) (hg : GivesBack now h a)
    (hb : ∀ r, files = [] → e = .blocked r → h.blockOf a = some r) (hs : h'.settles = false) :
    h'.outstanding = h.outstanding := by
  cases hc with
  | file file todo => exact (outstanding_of_batchFrame hf).symm
  | finished h' hE =>
    obtain ⟨r, rfl, hlt, hu⟩ := ending_settles hE hs
    have := hg.2 f r hf (hb r rfl rfl) hlt
    rw [hu] at this; cases this

/-- What is not settled by a write stays outstanding. -/
theorem Answered.outstanding {a : Answer} (ha : Answered sha256 now h a h')
    (hg : GivesBack now h (.ok a)) (hs : h'.settles = false) :
    h'.outstanding = h.outstanding := by
  cases ha with
  | named | completed | marked => cases hs
  | leftover f hp => exact nextBatch_outstanding
  | received f => exact nextBatch_outstanding
  | again f hp => exact nextBatch_outstanding
  | rowsDeleted f e file todo h hc =>
    exact cleaning_outstanding hc rfl hg (fun r ht he => by rw [ht, he]; rfl) hs
  | closed f h hh => rcases hh with rfl | rfl | rfl <;> rfl
  | _ => rfl

theorem Failed.outstanding {e : Exn} (ha : Failed now h e h') (hc : h.callsApi = true)
    (hg : GivesBack now h (.error e)) (hs : h'.settles = false) :
    h'.outstanding = h.outstanding := by
  cases ha with
  | names f e h hE =>
    cases hE with
    | failed | blocked => cases hs
    | overflow r e hr hu =>
      show 0 = f.pending.length
      rw [hg.1 f _ rfl rfl]; rfl
  | batch f h hb e h' hcl =>
    exact cleaning_outstanding hcl (batching_batchFrame hb) hg
      (fun r hf he => he ▸ blockOf_batch hb hf) hs
  | storing f h hh => rcases hh with rfl | rfl <;> cases hc
  | closing f h hh => rcases hh with rfl | rfl <;> cases hc
  | unread | object | rows | unstored => cases hc

/-- A write of the copy is one of a task that owes the outstanding names. -/
theorem owes_of_call {command : ProcessFilesCommand} {t : DownloadTask}
    (hh : h.Held DownloadTask.Owes) (hc : h.call command = some (.updateTask t)) :
    t.Owes h.outstanding := by
  cases h <;> simp only [call, Option.some.injEq, Call.updateTask.injEq, reduceCtorEq] at hc <;>
    subst hc <;> exact hh.2

theorem call_of_settles (command : ProcessFilesCommand) (hs : h.settles = true) :
    ∃ t, h.call command = some (.updateTask t) := by
  cases h <;> first | exact ⟨_, rfl⟩ | cases hs

theorem settles_of_isEnded (he : h.isEnded = true) : h.settles = false := by
  cases h <;> first | rfl | cases he

theorem outstanding_of_isEnded (he : h.isEnded = true) : h.outstanding = 0 := by
  cases h <;> first | rfl | cases he

theorem callsApi_of_settles (hs : h.settles = true) : h.callsApi = false := by
  cases h <;> first | rfl | cases hs

/-- **Where the names are not given back** the run ends at once, or with a copy that owes some. -/
theorem resume_keeps_names {a : Except Exn Answer} (hrun : h.Running) (hk : h.Keyed)
    (hh : h.Held DownloadTask.Owes) (hf : h.Fed) (hr : h.resume sha256 now a = some h')
    (hg : ¬ GivesBack now h a) : h.outstanding ≠ 0 ∧ (h'.isEnded = true ∨
      ∃ f, (h' = storeBlocked f ∨ h' = storeFailed f) ∧
        f.task.receivedFiles ≠ f.task.processedFiles) := by
  by_cases hn : ∃ f e, h = names f ∧ a = .error e ∧ f.pending ≠ []
  · obtain ⟨f, e, rfl, rfl, hp⟩ := hn
    have hlen : f.pending.length ≠ 0 := fun h0 => hp (List.length_eq_zero_iff.mp h0)
    refine ⟨hlen, ?_⟩
    have howes : f.task.receivedFiles ≠ f.task.processedFiles := by
      have := hh.2.2
      omega
    cases resume_failed hrun hk hr with
    | names f e h hE =>
      cases hE with
      | failed e he => exact .inr ⟨_, .inr rfl, howes⟩
      | blocked r u hlt hu => exact .inr ⟨_, .inl rfl, howes⟩
      | overflow r e hlt hu => exact .inl rfl
    | storing f h hh => simp at hh
    | batch f h hb => cases hb
    | closing f h hh => simp at hh
  · obtain ⟨f, r, hbf, hb, hlt, hu⟩ : ∃ f r, h.batchFrame = some f ∧ h.blockOf a = some r ∧
        60 < r ∧ addSeconds now r = none := by
      by_contra hno
      refine hg ⟨fun f e hk he => ?_, fun f r hf hb hlt => ?_⟩
      · exact by_contra fun hp => hn ⟨f, e, hk, he, hp⟩
      · exact Option.isSome_iff_ne_none.mpr fun hu => hno ⟨f, r, hf, hb, hlt, hu⟩
    refine ⟨?_, ?_⟩
    · rw [outstanding_of_batchFrame hbf]
      have := List.length_pos_iff.mpr (hf.batch hbf).1
      omega
    · obtain ⟨f', hE⟩ := ending_blockOf hrun hk hr hb
      cases hE with
      | failed e he => exact absurd (he r rfl) (Int.not_le.mpr hlt)
      | blocked r u hlt hu' => rw [hu] at hu'; cases hu'
      | overflow r e hlt hu => exact .inl rfl

end Handler

end FileExtractor

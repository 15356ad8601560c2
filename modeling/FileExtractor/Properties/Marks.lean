import FileExtractor.Properties.Exclusion
import FileExtractor.Properties.Pairing

/-!
# Marks and records

`mark_downloaded(batch)` acknowledges the names that were requested, while the records follow the
entries of the archive; and the cleanup after an error of `mark_downloaded` takes the records of
the batch away, also if the request has had its effect. So a name can be acknowledged and not
stored (`marked_without_record`).

`MarksFollow` excludes the two: each requested name has an entry in the archive or a record from
an earlier batch, and a mark whose answer is lost acknowledges no file that is newly stored.
Under it the invariant (`World.MarksInvariant`) says of each name of a batch that it is recorded or
still to come in the archive, and of each file that may be cleaned up that its name is not marked.
-/

namespace FileExtractor

open Rel Lts World

/-! ## The records -/

namespace Store

/-- The task has a record of the file. -/
def Recorded (s : Store) (taskId : TaskId) (filename : String) : Prop :=
  s.downloaded.exists_ taskId filename = true

variable {s s' : Store} {taskId tid : TaskId} {file : File} {fileHash : FileHash} {c : Call}
  {n : String}

theorem recorded_of_eq (h : s'.downloaded = s.downloaded) :
    s'.Recorded tid n ↔ s.Recorded tid n := by
  unfold Recorded; rw [h]

theorem apply_addFile_recorded (h : s.apply taskId (.addFile tid file fileHash) = some s') :
    s'.Recorded tid file.filename ∧ ¬ s.Recorded tid file.filename := by
  obtain ⟨files, downloaded, -, hd, rfl⟩ := apply_addFile h
  have hnone := (Table.insert?_eq_some hd).1
  have hsome := Table.get?_insert hd (tid, file.filename)
  simp only [DownloadedFileModel.key, if_true] at hnone hsome
  exact ⟨by simp [Recorded, DownloadedTable.exists_, hsome],
    by simp [Recorded, DownloadedTable.exists_, hnone]⟩

theorem apply_deleteFile_recorded (h : s.apply taskId (.deleteFile tid file) = some s') :
    ¬ s'.Recorded tid file.filename := by
  cases h
  unfold Recorded DownloadedTable.exists_ DownloadedTable.deleteRecord
  rw [Table.get?_delete]
  cases hd : s.downloaded.get? (tid, file.filename) with
  | none => simp
  | some d =>
    have hkey : d.key = (tid, file.filename) := (Table.get?_eq_some.mp hd).2
    simp [Option.filter, hkey]

/-- A record that is new is the one of a file that the call adds. -/
theorem apply_newly_recorded (h : s.apply taskId c = some s') {t : TaskId}
    (hn : ¬ s.Recorded t n) (hr : s'.Recorded t n) :
    ∃ file fileHash, c = .addFile t file fileHash ∧ n = file.filename := by
  cases c with
  | addFile tid file fileHash =>
    obtain ⟨files, downloaded, -, hd, rfl⟩ := apply_addFile h
    unfold Recorded DownloadedTable.exists_ at hr hn
    rw [Table.get?_insert hd] at hr
    split at hr
    · next e =>
      obtain ⟨rfl, rfl⟩ := Prod.mk.inj e
      exact ⟨file, fileHash, rfl, rfl⟩
    · exact absurd hr hn
  | deleteFile tid file =>
    cases h
    unfold Recorded DownloadedTable.exists_ DownloadedTable.deleteRecord at hr
    unfold Recorded DownloadedTable.exists_ at hn
    rw [Table.get?_delete] at hr
    cases hd : s.downloaded.get? (t, n) with
    | none => rw [hd] at hr; cases hr
    | some d => rw [hd] at hn; exact absurd rfl hn
  | _ => cases h; exact absurd hr hn

/-- Only the deletion of a file takes a record away: its own. -/
theorem apply_keeps_recorded (h : s.apply taskId c = some s') {t : TaskId} (hr : s.Recorded t n)
    (hne : ∀ file, c = .deleteFile t file → n ≠ file.filename) : s'.Recorded t n := by
  cases c with
  | addFile tid file fileHash =>
    obtain ⟨files, downloaded, -, hd, rfl⟩ := apply_addFile h
    unfold Recorded DownloadedTable.exists_
    rw [Table.get?_insert hd]
    split
    · rfl
    · exact hr
  | deleteFile tid file =>
    cases h
    unfold Recorded DownloadedTable.exists_ DownloadedTable.deleteRecord
    obtain ⟨d, hd⟩ := Option.isSome_iff_exists.mp hr
    have hkey : d.key = (t, n) := (Table.get?_eq_some.mp hd).2
    have hother : d.key ≠ (tid, file.filename) := by
      rw [hkey]
      intro e
      obtain ⟨rfl, rfl⟩ := Prod.mk.inj e
      exact hne file rfl rfl
    rw [Table.get?_delete, hd]
    simp [Option.filter, hother]
  | _ => cases h; exact hr

/-- A name that is marked was marked before, or the call marks its batch. -/
theorem apply_marked (h : s.apply taskId c = some s') {t : TaskId} (hm : (t, n) ∈ s'.marked) :
    (t, n) ∈ s.marked ∨
      ∃ batch candidateId, c = .markDownloaded batch candidateId ∧ t = taskId ∧ n ∈ batch := by
  cases c with
  | addFile tid file fileHash =>
    obtain ⟨files, downloaded, -, -, rfl⟩ := apply_addFile h
    exact .inl hm
  | markDownloaded batch candidateId =>
    cases h
    rcases List.mem_append.mp hm with hm | hm
    · exact .inl hm
    · obtain ⟨m, hmem, he⟩ := List.mem_map.mp hm
      obtain ⟨rfl, rfl⟩ := Prod.mk.inj he
      exact .inr ⟨batch, candidateId, rfl, rfl, hmem⟩
  | _ => cases h; exact .inl hm

end Store

/-! ## The invariant -/

/-- An archive has an entry, which is no directory, for each requested name without a record, and
a mark whose answer is lost is of no name that this batch has stored. The watchdog takes only
tasks of ended handlers. -/
def MarksFollow (w : World) : Label → Prop
  | .call pid reply => ∀ k f, w.procs pid = .handling k →
      (k.handler = .download f → ∀ archive, reply = .done (.archive archive) → ∀ n ∈ f.batch,
        (∃ info ∈ archive, info.filename = n ∧ info.isDir = false) ∨
          w.store.Recorded k.message.taskId n) ∧
      (k.handler = .mark f → ∀ e, reply = .lost e →
        ∀ file ∈ f.batchFileEntities, file.filename ∉ f.batch)
  | l => ReclaimsEnded w l

theorem MarksFollow.reclaimsEnded {w : World} {l : Label} (h : MarksFollow w l) :
    ReclaimsEnded w l := by
  cases l with
  | call pid reply => trivial
  | _ => exact h

structure World.MarksInvariant (w : World) : Prop where
  marked : ∀ {t n}, (t, n) ∈ w.store.marked → w.store.Recorded t n
  unmarked : ∀ {pid k file}, w.procs pid = .handling k → file ∈ k.handler.batchFiles →
    (k.message.taskId, file.filename) ∉ w.store.marked
  coming : ∀ {pid k batch names n}, w.procs pid = .handling k →
    k.handler.underway = some (batch, names) → n ∈ batch →
    w.store.Recorded k.message.taskId n ∨ n ∈ names

theorem Handler.isEnded_of_batchFiles {h : Handler} {file : File} (hf : file ∈ h.batchFiles) :
    h.isEnded = false := by
  cases h <;> first | rfl | cases hf

theorem Handler.isEnded_of_underway {h : Handler} {u : List String × List String}
    (hu : h.underway = some u) : h.isEnded = false := by
  cases h <;> first | rfl | cases hu

namespace World

variable {sha256 : Bytes → Digest} {w w' : World} {l : Label}

/-- A call for the task of a live handler is its own call. -/
theorem Exclusive.caller (hx : w.Exclusive) {pid pid' : Pid} {k k' : Worker} {c : Call}
    (hp : w.procs pid = .handling k) (he : k.handler.isEnded = false)
    (hp' : w.procs pid' = .handling k') (hc : k'.handler.call k'.message = some c)
    (ht : k'.message.taskId = k.message.taskId) : pid' = pid :=
  hx.unique (live_of_call hp' hc) ⟨hp, he⟩ ht

/-- A record of a task stays while its handler takes no step, and while it reads an archive. -/
theorem Exclusive.keeps_recorded (hx : w.Exclusive) (hid : w.CopiesOfMessage)
    (h : Step sha256 w l w') {pid : Pid} {k : Worker} (hp : w.procs pid = .handling k)
    (he : k.handler.isEnded = false)
    (hl : (∀ reply, l ≠ .call pid reply) ∨ k.handler.underway ≠ none) {n : String}
    (hr : w.store.Recorded k.message.taskId n) : w'.store.Recorded k.message.taskId n := by
  rcases h.effect with same | ⟨pid', reply, k', c, rfl, hp', hc, -, ha⟩
  · exact (Store.recorded_of_eq same.downloaded).mpr hr
  refine Store.apply_keeps_recorded ha hr fun file hdel => ?_
  subst hdel
  obtain ⟨f, e, todo, hk, ht⟩ := Handler.call_deleteFile hc
  have htask : f.task.id = k'.message.taskId := hid.taskId hp' (by rw [hk]; rfl)
  obtain rfl : pid' = pid := hx.caller hp he hp' hc (ht.trans htask).symm
  rw [hp] at hp'; cases hp'
  rcases hl with hl | hl
  · exact absurd rfl (hl reply)
  · exact absurd (by rw [hk]; rfl) hl

/-- A name that the answer settles is recorded. -/
theorem CopiesOfMessage.settled_recorded (hid : w.CopiesOfMessage) {pid : Pid} {k : Worker}
    {c : Call} {reply : Reply} {s : Store} {n : String} (hp : w.procs pid = .handling k)
    (hc : k.handler.call k.message = some c)
    (hs : w.store.serve k.message.taskId c reply = some s)
    (hn : k.handler.settled reply.seen = some n) : s.Recorded k.message.taskId n := by
  unfold Handler.settled at hn
  split at hn
  · next f extracted rest hk ha =>
    cases hn
    have htask : f.task.id = k.message.taskId := hid.taskId hp (by rw [hk]; rfl)
    rw [hk] at hc
    cases hc
    obtain rfl := Reply.of_seen ha
    obtain ⟨hperm, hap⟩ := Store.serve_done hs
    cases hap
    simp only [Store.permits, decide_eq_true_eq] at hperm
    rw [← htask]; exact hperm.symm
  · next f file fileHash rest hk ha =>
    cases hn
    have htask : f.task.id = k.message.taskId := hid.taskId hp (by rw [hk]; rfl)
    rw [hk] at hc
    cases hc
    obtain rfl := Reply.of_seen ha
    rw [← htask]
    exact (Store.apply_addFile_recorded (Store.serve_done hs).2).1
  · cases hn

/-- An answer to the handler of a file that it may still clean up does not mark the file. -/
theorem unmarked_call (hid : w.CopiesOfMessage) {pid : Pid} {k : Worker} {c : Call} {reply : Reply}
    {handler : Handler} {s : Store} (hok : MarksFollow w (.call pid reply))
    (hp : w.procs pid = .handling k) (hc : k.handler.call k.message = some c)
    (hs : w.store.serve k.message.taskId c reply = some s)
    (hr : k.handler.resume sha256 w.now reply.seen = some handler) {file : File}
    (hf : file ∈ handler.batchFiles) (hold : (k.message.taskId, file.filename) ∉ w.store.marked) :
    (k.message.taskId, file.filename) ∉ s.marked := by
  intro hm
  cases reply with
  | refused e => cases hs; exact hold hm
  | done answer =>
    rcases Store.apply_marked (Store.serve_done hs).2 hm with hm | ⟨batch, candidateId, rfl, -, -⟩
    · exact hold hm
    -- after the mark nothing is left to clean up
    obtain ⟨f, hk, -⟩ := Handler.call_markDownloaded hc
    have hheld := hid pid k hp
    rw [hk] at hheld hr
    rw [Handler.resume_marked hheld.1 hr] at hf
    cases hf
  | lost e =>
    rcases Store.apply_marked hs hm with hm | ⟨batch, candidateId, rfl, -, hmem⟩
    · exact hold hm
    obtain ⟨f, hk, rfl⟩ := Handler.call_markDownloaded hc
    rw [hk] at hr
    have hsub : handler.batchFiles.Sublist (f.batchFileEntities ++ []) :=
      (Handler.resume_next hr).batchFiles
    rw [List.append_nil] at hsub
    exact (hok k f hp).2 hk e rfl file (hsub.subset hf) hmem

namespace MarksInvariant

variable (hw : w.MarksInvariant)
include hw

theorem step_marked (hid : w.CopiesOfMessage) (h : Step sha256 w l w') {t : TaskId} {n : String}
    (hm : (t, n) ∈ w'.store.marked) : w'.store.Recorded t n := by
  rcases h.effect with same | ⟨pid, reply, k, c, rfl, hp, hc, -, ha⟩
  · rw [same.marked] at hm
    exact (Store.recorded_of_eq same.downloaded).mpr (hw.marked hm)
  rcases Store.apply_marked ha hm with hm | ⟨batch, candidateId, rfl, rfl, hn⟩
  · -- the record of a marked name is not among those that the cleanup deletes
    refine Store.apply_keeps_recorded ha (hw.marked hm) fun file hdel hne => ?_
    subst hdel hne
    obtain ⟨f, e, todo, hk, ht⟩ := Handler.call_deleteFile hc
    have htask : f.task.id = k.message.taskId := hid.taskId hp (by rw [hk]; rfl)
    have hfile : file ∈ k.handler.batchFiles := by rw [hk]; exact List.mem_cons_self
    refine hw.unmarked hp hfile ?_
    rwa [← htask, ← ht]
  · -- the archive is read, so each name of the batch is recorded
    obtain ⟨f, hk, rfl⟩ := Handler.call_markDownloaded hc
    have hr := (hw.coming hp (by rw [hk]; rfl) hn).resolve_right List.not_mem_nil
    exact Store.apply_keeps_recorded ha hr fun file hdel => by cases hdel

theorem step_unmarked (hx : w.Exclusive) (hid : w.CopiesOfMessage) (hok : MarksFollow w l)
    (h : Step sha256 w l w') {pid : Pid} {k' : Worker} {file : File}
    (hp' : w'.procs pid = .handling k') (hf : file ∈ k'.handler.batchFiles) :
    (k'.message.taskId, file.filename) ∉ w'.store.marked := by
  cases h.handling hp' with
  | kept k lost hp hl hlost =>
    have hold := hw.unmarked hp hf
    intro hm
    rcases h.effect with same | ⟨q, reply, k₂, c, rfl, hq, hc, -, ha⟩
    · rw [same.marked] at hm; exact hold hm
    rcases Store.apply_marked ha hm with hm | ⟨batch, candidateId, -, ht, -⟩
    · exact hold hm
    -- only the handler of the task itself marks names of the task
    have hqp := hx.caller hp (Handler.isEnded_of_batchFiles hf) hq hc ht.symm
    exact hl reply (by rw [hqp])
  | begun m workerId row hl hp hrow hs hrow' => cases hf
  | resumed k reply c handler hl hp hc hs hr =>
    subst hl
    refine unmarked_call hid hok hp hc hs hr hf ?_
    rcases h.batchFiles pid with hb | ⟨k₀, f, file₀, fileHash, rest, hl, hp₀, hk₀, hb⟩
    · rw [hp, hp'] at hb
      exact hw.unmarked hp (hb.subset hf)
    · rw [hp] at hp₀; cases hp₀
      rw [hp, hp'] at hb
      rcases List.mem_append.mp (hb.subset hf) with hf | hf
      · exact hw.unmarked hp hf
      -- the file is new, so its name had no record and no mark
      · rw [List.mem_singleton.mp hf]
        cases hl
        have htask : f.task.id = k.message.taskId := hid.taskId hp (by rw [hk₀]; rfl)
        rw [hk₀] at hc
        cases hc
        rw [← htask]
        intro hm
        exact (Store.apply_addFile_recorded (Store.serve_done hs).2).2 (hw.marked hm)

theorem step_coming (hx : w.Exclusive) (hid : w.CopiesOfMessage) (hok : MarksFollow w l)
    (h : Step sha256 w l w') {pid : Pid} {k' : Worker} {batch names' : List String} {n : String}
    (hp' : w'.procs pid = .handling k') (hu : k'.handler.underway = some (batch, names'))
    (hn : n ∈ batch) : w'.store.Recorded k'.message.taskId n ∨ n ∈ names' := by
  cases h.handling hp' with
  | kept k lost hp hl hlost =>
    have he : k.handler.isEnded = false := Handler.isEnded_of_underway hu
    exact (hw.coming hp hu hn).imp_left (hx.keeps_recorded hid h hp he (.inl hl))
  | begun m workerId row hl hp hrow hs hrow' => cases hu
  | resumed k reply c handler hl hp hc hs hr =>
    subst hl
    rcases (Handler.resume_next hr).underway hu with
      ⟨f, archive, hk, hseen, rfl, rfl⟩ | ⟨names, hu₀, hnames⟩
    · -- the archive has come
      rw [hk] at hc
      cases hc
      obtain rfl := Reply.of_seen hseen
      rcases (hok k f hp).1 hk archive rfl n hn with ⟨info, hmem, rfl, hd⟩ | hrec
      · exact .inr (mem_extractStream.mpr ⟨List.mem_map_of_mem hmem, hd⟩)
      · exact .inl (Store.apply_keeps_recorded (Store.serve_done hs).2 hrec fun file hdel => by
          cases hdel)
    · have he : k.handler.isEnded = false := Handler.isEnded_of_underway hu₀
      rcases hw.coming hp hu₀ hn with hrec | hmem
      · exact .inl (hx.keeps_recorded hid h hp he (.inr (by simp [hu₀])) hrec)
      · rcases hnames n hmem with hmem | hset
        · exact .inr hmem
        · exact .inl (hid.settled_recorded (k := k) hp hc hs hset)

end MarksInvariant

end World

/-- **The invariant**, in every run whose marks follow the archives. -/
theorem marks_invariant (sha256 : Bytes → Digest) :
    (system sha256).Invariant MarksFollow World.MarksInvariant := by
  refine System.Reach.induct ?_ fun w l w' hr hw hok hst => ?_
  · rintro w ⟨now, bucket, rfl⟩
    exact ⟨fun h => (by cases h), fun h => (by cases h), fun h => by cases h⟩
  · have h := Step.of_step hst
    have hid := copies_of_message sha256 w hr.toFree
    have hx := exclusive_invariant sha256 w (hr.mono fun _ _ => MarksFollow.reclaimsEnded)
    exact ⟨hw.step_marked hid h, hw.step_unmarked hx hid hok h, hw.step_coming hx hid hok h⟩

end FileExtractor

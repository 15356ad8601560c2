import FileExtractor.Properties.Protocol
import FileExtractor.Properties.UnitOfWork

/-!
# A failed existence check

The existence check is the one request of a run that is in no `async with self._uow`. When it
raises, the session is left aborted, and the first block of the cleanup raises as well and deletes
no row (`SessionRun.spares`). The object of its file has been deleted before that. So the record of
the first file of the batch stays, and the next attempt takes this file to be downloaded.

`Named c e`: the files of the batch have their records, and different names. From the failed block
on, the deletions that are left are those of other files (`Spared`).
-/

namespace FileExtractor

open Rel Lts Transaction

/-- After an exception no batch is handled. -/
theorem Handler.Failed.batching {now : Time} {h h' : Handler} {x : Exn} (ha : Failed now h x h') :
    h'.batching = none := by
  have hu : (h'.undoing "").isSome := ha.undoing_isSome
  cases h' <;> first | rfl | cases hu

/-- The record of another file is not deleted. -/
theorem Store.apply_record {s s' : Store} {taskId id : TaskId} {c : Call} {name : String}
    (h : s.apply taskId c = some s') (ha : ∀ tid file fileHash, c ≠ .addFile tid file fileHash)
    (hd : ∀ tid file, c = .deleteFile tid file → file.filename ≠ name) :
    s'.downloaded.exists_ id name = s.downloaded.exists_ id name := by
  cases c with
  | addFile tid file fileHash => exact absurd rfl (ha tid file fileHash)
  | deleteFile tid file =>
    cases h
    have hne := hd tid file rfl
    simp only [DownloadedTable.exists_, DownloadedTable.deleteRecord, Table.get?_delete]
    cases hg : s.downloaded.get? (id, name) with
    | none => rfl
    | some m =>
      have hkey : m.key = (id, name) := (Table.get?_eq_some.mp hg).2
      have hother : (id, name) ≠ (tid, file.filename) := fun e => hne (Prod.mk.inj e).2.symm
      simp [hkey, hother]
  | _ => cases h; rfl

/-- The files of the batch have records, and the names of these files and of the one that is being
stored are different. -/
structure Handler.Names (taskId : TaskId) (downloaded : DownloadedTable) (h : Handler) : Prop where
  records : ∀ file ∈ h.batchFiles, downloaded.exists_ taskId file.filename = true
  nodup : (h.batchFiles.map File.filename ++ h.storing.toList).Nodup

/-- **An answer in a batch** keeps the names. -/
theorem Handler.Answered.names_step {sha256 : Bytes → Digest} {now : Time} {h h' : Handler}
    {a : Answer} {command : ProcessFilesCommand} {call : Call} {s s' : Store} {taskId : TaskId}
    (ha : Answered sha256 now h a h') (hc : h.call command = some call)
    (hperm : s.permits call a = true) (happly : s.apply taskId call = some s')
    (hid : ∀ f, h.frame = some f → f.task.id = taskId)
    (hn : h.batching.isSome → h.Names taskId s.downloaded) (hb : h'.batching.isSome) :
    h'.Names taskId s'.downloaded := by
  have same : h.batching.isSome → s'.downloaded = s.downloaded → h'.batchFiles = h.batchFiles →
      h'.storing = h.storing → h'.Names taskId s'.downloaded := by
    intro hb hs hf hst
    obtain ⟨hrec, hnodup⟩ := hn hb
    exact ⟨by rw [hs, hf]; exact hrec, by rw [hf, hst]; exact hnodup⟩
  have opened : h'.batchFiles = [] → h'.storing = none → h'.Names taskId s'.downloaded := by
    intro hf hst
    refine ⟨fun file hfile => ?_, by rw [hf, hst]; exact .nil⟩
    rw [hf] at hfile; cases hfile
  cases ha with
  | leftover | received | again => exact opened rfl rfl
  | downloaded | exhausted | beating | entered | beaten | skipped | uploaded =>
    cases hc; cases happly; exact same rfl rfl rfl rfl
  | missed f extracted rest =>
    cases hc; cases happly
    have hnew : s.downloaded.exists_ taskId extracted.filename = false := by
      rw [← hid f rfl]; exact (of_decide_eq_true hperm).symm
    obtain ⟨hrec, hnodup⟩ := hn rfl
    refine ⟨hrec, ?_⟩
    have hfiles : (f.batchFileEntities.map File.filename).Nodup := List.Nodup.of_append_left hnodup
    show (f.batchFileEntities.map File.filename ++ [extracted.filename]).Nodup
    rw [List.nodup_append]
    refine ⟨hfiles, List.nodup_singleton _, fun n hn n' hn' heq => ?_⟩
    obtain ⟨file, hfile, rfl⟩ := List.mem_map.mp hn
    rw [List.mem_singleton] at hn'
    have := hrec file hfile
    rw [heq, hn', hnew] at this
    cases this
  | recorded f file fileHash rest =>
    cases hc
    obtain ⟨files, downloaded, -, hdown, rfl⟩ := Store.apply_addFile happly
    obtain ⟨hrec, hnodup⟩ := hn rfl
    refine ⟨fun x hx => ?_, ?_⟩
    · have hget : downloaded.get? (taskId, x.filename) = _ := Table.get?_insert hdown _
      show (downloaded.get? (taskId, x.filename)).isSome = true
      rw [hget]
      split
      · rfl
      · next hne =>
        rcases List.mem_append.mp hx with hx | hx
        · exact hrec x hx
        · rw [List.mem_singleton.mp hx, ← hid f rfl] at hne
          exact absurd rfl hne
    · show ((f.batchFileEntities ++ [file]).map File.filename ++ []).Nodup
      rw [List.append_nil, List.map_append]
      exact hnodup
  | closed f h hh => rcases hh with rfl | rfl | rfl <;> cases hb
  | rowsDeleted f e file todo h hcl =>
    cases hcl with
    | file => cases hb
    | finished h hE => cases hE <;> cases hb
  | _ => cases hb

namespace Execution

variable {sha256 : Bytes → Digest} {e e' : Execution} {ev : Event} {c name : String}

structure Named (c : String) (e : Execution) : Prop where
  sound : Sound c e
  names : e.handler.batching.isSome → e.handler.Names e.command.taskId e.store.downloaded

theorem Named.step (h : Named c e) (hst : (executions sha256).step e ev = some e') :
    Named c e' := by
  refine ⟨h.sound.step hst, fun hb => ?_⟩
  rw [(command_step hst).1]
  cases hf : ev.reply.failed with
  | true =>
    obtain ⟨x, hx⟩ := Reply.seen_failed hf
    rw [(h.sound.failed hst hx).batching] at hb; cases hb
  | false =>
    obtain ⟨a, ha⟩ := Reply.of_not_failed hf
    obtain ⟨call, hcall, -⟩ := calls_step hst
    obtain ⟨hperm, happly⟩ := store_answered hst ha hcall
    exact (h.sound.answered hst ha).names_step hcall hperm happly (fun f hf => h.sound.taskId hf)
      h.names hb

theorem named_run {command : ProcessFilesCommand} {now : Time} {store : Store} {s : DownloadTask}
    (hs : store.tasks.getById command.taskId = some s) (hr : s.status = .running)
    {evs : List Event} (hrun : (executions sha256).run (start command now store) evs = some e) :
    Named s.candidateId e :=
  System.run_keeps (fun _ _ _ h _ hst => h.step hst) ⟨sound_start hs hr, fun h => by cases h⟩
    System.guarded_free hrun

/-- The run is in a cleanup or at its end, the record of the name is there, it is not to be deleted,
and there is no object. -/
structure Spared (name : String) (e : Execution) : Prop where
  left : ∃ rest, e.handler.undoing e.command.taskId = some rest ∧
    ∀ tid file, Deletion.rows tid file ∈ rest → file.filename ≠ name
  record : e.store.downloaded.exists_ e.command.taskId name = true
  object : e.store.bucket (Handler.storageKey name) = none

/-- **Every event keeps it.** -/
theorem Spared.step (h : Spared name e) (hs : Sound c e)
    (hst : (executions sha256).step e ev = some e') : Spared name e' := by
  obtain ⟨⟨rest, hu, hrest⟩, hrecord, hobject⟩ := h
  obtain ⟨call, hcall, -⟩ := calls_step hst
  have hid : ∀ f, e.handler.frame = some f → f.task.id = e.command.taskId :=
    fun f hf => hs.taskId hf
  obtain ⟨rest', hu', he⟩ : ∃ rest', e'.handler.undoing e.command.taskId = some rest' ∧
      rest = call.deletion.toList ++ rest' := by
    cases hf : ev.reply.failed with
    | true =>
      obtain ⟨x, hx⟩ := Reply.seen_failed hf
      exact (hs.failed hst hx).undoing_next hcall hid hu
    | false =>
      obtain ⟨a, ha⟩ := Reply.of_not_failed hf
      exact (hs.answered hst ha).undoing_next hcall hid hu
  have hstore : e'.store = e.store ∨ e.store.apply e.command.taskId call = some e'.store := by
    obtain ⟨c', store, handler, -, hc, hserve, -, rfl⟩ := step_eq hst
    rw [hcall] at hc; cases hc
    exact (Store.serve_cases hserve).imp And.left id
  have hadd : ∀ tid file fileHash, call ≠ .addFile tid file fileHash := by
    rintro tid file fileHash rfl
    cases hk : e.handler <;> rw [hk] at hcall hu <;> cases hcall
    cases hu
  have hput : ∀ key content, call ≠ .uploadStream key content := by
    rintro key content rfl
    cases hk : e.handler <;> rw [hk] at hcall hu <;> cases hcall
    cases hu
  have hdel : ∀ tid file, call = .deleteFile tid file → file.filename ≠ name := by
    rintro tid file rfl
    exact hrest tid file (he ▸ List.mem_cons_self)
  refine ⟨⟨rest', by rw [(command_step hst).1]; exact hu', fun tid file hmem =>
    hrest tid file (he ▸ List.mem_append_right _ hmem)⟩, ?_, ?_⟩
  · rw [(command_step hst).1]
    rcases hstore with hstore | happly
    · rw [hstore]; exact hrecord
    · rw [Store.apply_record happly hadd hdel]; exact hrecord
  · rcases hstore with hstore | happly
    · rw [hstore]; exact hobject
    · rcases Store.apply_bucket happly (Handler.storageKey name) with
        hb | ⟨content, hc, -⟩ | ⟨-, hb⟩
      · rw [hb]; exact hobject
      · exact absurd hc (hput _ _)
      · exact hb

theorem Spared.run {evs : List Event} (h : Spared name e) (hs : Sound c e)
    (hrun : (executions sha256).run e evs = some e') : Spared name e' :=
  (System.run_keeps (I := fun e => Spared name e ∧ Sound c e)
    (fun _ _ _ h _ hst => ⟨h.1.step h.2 hst, h.2.step hst⟩) ⟨h, hs⟩ System.guarded_free hrun).1

end Execution

namespace SessionRun

variable {sha256 : Bytes → Digest} {E : Errors Exn} {r r' : SessionRun} {f : Frame}
  {elapsed : Time} {faults : List (Option Exn)} {fault : Option Exn}
  {fate : Transaction.Fate Exn}

/-- The check raises, and no statement of it is rolled back. -/
theorem check_raises {extracted : ExtractedFile} {rest : List ExtractedFile} {x : Exn}
    (hk : r.handler = .checkExists f extracted rest)
    (hst : (sessionRuns sha256 E).step r (.database elapsed faults (some x) fate) = some r') :
    (∃ y now, r'.handler = Handler.failBatch now f y) ∧
      r'.session = { r.session with aborted := true } := by
  obtain ⟨c, request, result, handler, -, hc, hreq, hask, hr, rfl⟩ := step_database hst
  rw [hk] at hc hr
  cases hc; cases hreq
  obtain ⟨y, hres⟩ : ∃ y, result = (some y, { r.session with aborted := true }) := by
    rw [← hask]
    show ∃ y, r.session.emit E [some] (some x) = _
    unfold Session.emit
    cases ha : r.session.aborted with
    | true => exact ⟨E.aborted, by rw [if_pos rfl, ← ha]⟩
    | false => exact ⟨x, rfl⟩
  rw [hres] at hr ⊢
  cases hr
  exact ⟨⟨y, _, rfl⟩, rfl⟩

/-- **A block on an aborted session** does not reach the tables. -/
theorem spares {file : File} {todo : List File} {y : Exn}
    (hk : r.handler = .deleteRows f y file todo) (ha : r.session.aborted = true)
    (hst : (sessionRuns sha256 E).step r (.database elapsed faults fault fate) = some r') :
    (∃ now, r'.handler = Handler.cleanupBatchFiles now f y todo) ∧
      r'.session.committed = r.session.committed ∧ r'.bucket = r.bucket := by
  obtain ⟨c, request, result, handler, -, hc, hreq, hask, hr, rfl⟩ := step_database hst
  rw [hk] at hc hr
  cases hc; cases hreq
  have hres : result = (some E.aborted, r.session.rollback) := by
    rw [← hask]
    simp [ask, Session.block, Session.body, Session.request, Session.emit, readRow, ha]
  rw [hres] at hr ⊢
  cases hr
  exact ⟨⟨_, rfl⟩, rfl, rfl⟩

/-- The deletion of an object takes effect. -/
theorem deletes_object {file : File} {todo : List File} {y : Exn} {key : String} {reply : Reply}
    (hk : r.handler = .deleteObject f y key file todo) (hreply : ∀ z, reply ≠ .refused z)
    (hst : (sessionRuns sha256 E).step r (.remote elapsed reply) = some r') :
    r'.handler = .deleteRows f y file todo ∧ r'.session = r.session ∧ r'.bucket key = none := by
  obtain ⟨c, store, handler, -, hc, -, hs, hr, rfl⟩ := step_remote hst
  rw [hk] at hc hr
  cases hc
  have hbucket : store.bucket key = none := by
    rcases Store.serve_cases hs with ⟨-, z, hz⟩ | happly
    · exact absurd hz (hreply z)
    · cases happly; exact Function.update_self ..
  refine ⟨?_, rfl, hbucket⟩
  cases hseen : reply.seen with
  | error z => rw [hseen] at hr; cases hr; rfl
  | ok a => rw [hseen] at hr; cases a <;> cases hr; rfl

/-- After the block that the failed check has spoilt, the file is spared. -/
theorem Shows.spared {e : Execution} {file : File} {todo : List File} {y : Exn}
    {now : Time} (h : r.Shows e)
    (hk : r.handler = Handler.cleanupBatchFiles now f y todo) (hrun : f.task.status = .running)
    (hkeys : ∀ x ∈ todo, x.storageKey = some (Handler.storageKey x.filename))
    (hname : file.filename ∉ todo.map File.filename)
    (hrecord : r.session.committed.downloaded.exists_ e.command.taskId file.filename = true)
    (hobject : r.bucket (Handler.storageKey file.filename) = none) :
    e.Spared file.filename where
  left := by
    refine ⟨todo.flatMap (Deletion.both e.command.taskId), ?_, fun tid x hx => ?_⟩
    · rw [h.handler, hk]
      exact (Handler.cleaning_cleanupBatchFiles y hrun hkeys).undoing
    · obtain ⟨x', hx', hmem⟩ := List.mem_flatMap.mp hx
      simp only [Deletion.both, List.mem_cons, Deletion.rows.injEq, reduceCtorEq, false_or,
        List.not_mem_nil, or_false] at hmem
      rw [hmem.2]
      exact fun heq => hname (heq ▸ List.mem_map_of_mem hx')
  record := by
    have hd : e.store.downloaded = r.session.committed.downloaded :=
      congrArg Tables.downloaded h.tables
    rw [hd]; exact hrecord
  object := by rw [h.bucket]; exact hobject

end SessionRun

/-- **A failed existence check forgets a file**: in every run of `execute` with its session on a
`RUNNING` row, when the check raises and the deletion of the first object of the batch takes effect,
the first file of the batch keeps its record, up to the end of the run and whatever else happens,
although there is no object under its key. -/
theorem failed_check_forgets (sha256 : Bytes → Digest) (E : Errors Exn)
    (command : ProcessFilesCommand) (now : Time) (store : Store) (s : DownloadTask)
    (hs : store.tasks.getById command.taskId = some s) (hr : s.status = .running)
    (evs : List SessionEvent) (r : SessionRun)
    (hrun : (SessionRun.sessionRuns sha256 E).run (.start command now store) evs = some r)
    (f : Frame) (extracted : ExtractedFile) (rest : List ExtractedFile) (file : File)
    (files : List File) (hk : r.handler = .checkExists f extracted rest)
    (hf : f.batchFileEntities = file :: files) (elapsed elapsed' : Time)
    (faults : List (Option Exn)) (x : Exn) (fate : Transaction.Fate Exn) (reply : Reply)
    (hreply : ∀ z, reply ≠ .refused z) (evs' : List SessionEvent) (r' : SessionRun)
    (hrun' : (SessionRun.sessionRuns sha256 E).run r
      (.database elapsed faults (some x) fate :: .remote elapsed' reply :: evs') = some r') :
    r'.session.committed.downloaded.exists_ command.taskId file.filename = true ∧
      r'.bucket (Handler.storageKey file.filename) = none := by
  obtain ⟨es, e, -, hexec, hshow⟩ := (SessionRun.shows_start command now store).run hrun
  have hcommand : e.command = command := Execution.command_run hexec
  have hnamed := Execution.named_run hs hr hexec
  have hframe : e.handler = .checkExists f extracted rest := hshow.handler.trans hk
  obtain ⟨hrecords, hnodup⟩ := hnamed.names (by rw [hframe]; rfl)
  have hfiles : e.handler.batchFiles = file :: files := by rw [hframe]; exact hf
  rw [hfiles] at hrecords hnodup
  have hrecord : r.session.committed.downloaded.exists_ command.taskId file.filename = true := by
    have := hrecords file List.mem_cons_self
    rw [hcommand] at this
    rwa [← show e.store.downloaded = _ from congrArg Tables.downloaded hshow.tables]
  have hname : file.filename ∉ files.map File.filename :=
    (List.nodup_cons.mp (List.Nodup.of_append_left hnodup)).1
  have hkeys : ∀ y ∈ file :: files, y.storageKey = some (Handler.storageKey y.filename) :=
    fun y hy => hnamed.sound.keyed y (.inl (hfiles ▸ hy))
  have hrunning : f.task.status = .running := hnamed.sound.running f (by rw [hframe]; rfl)
  -- the check, and the deletion of the object
  obtain ⟨r₁, hst₁, hrun'⟩ := System.run_cons_eq_some.mp hrun'
  obtain ⟨⟨y, now₁, hk₁⟩, hsession₁⟩ := SessionRun.check_raises hk hst₁
  obtain ⟨ev₁, e₁, -, hexec₁, hshow₁⟩ := hshow.step hst₁
  replace hk₁ : r₁.handler =
      .deleteObject f y (Handler.storageKey file.filename) file files := by
    rw [hk₁, Handler.failBatch, hf]
    simp only [Handler.cleanupBatchFiles, hkeys file List.mem_cons_self]
  obtain ⟨r₂, hst₂, hrun'⟩ := System.run_cons_eq_some.mp hrun'
  obtain ⟨hk₂, hsession₂, hobject⟩ := SessionRun.deletes_object hk₁ hreply hst₂
  obtain ⟨ev₂, e₂, -, hexec₂, hshow₂⟩ := hshow₁.step hst₂
  have hcommitted : r₂.session.committed = r.session.committed := by rw [hsession₂, hsession₁]
  cases evs' with
  | nil => cases hrun'; exact ⟨by rw [hcommitted]; exact hrecord, hobject⟩
  | cons ev evs' =>
    obtain ⟨r₃, hst₃, hrun₃⟩ := System.run_cons_eq_some.mp hrun'
    obtain ⟨ev₃, e₃, -, hexec₃, hshow₃⟩ := hshow₂.step hst₃
    have hsound := ((hnamed.sound.step hexec₁).step hexec₂).step hexec₃
    have hcommand₃ : e₃.command = command := by
      rw [(Execution.command_step hexec₃).1, (Execution.command_step hexec₂).1,
        (Execution.command_step hexec₁).1, hcommand]
    cases ev with
    | remote t reply =>
      obtain ⟨c, _, _, -, hc, hreq, -⟩ := SessionRun.step_remote hst₃
      rw [hk₂] at hc; cases hc; cases hreq
    | database t faults fault fate =>
      obtain ⟨⟨now₃, hk₃⟩, hcommitted₃, hbucket₃⟩ :=
        SessionRun.spares hk₂ (by rw [hsession₂, hsession₁]) hst₃
      have hspared : e₃.Spared file.filename := hshow₃.spared hk₃ hrunning
        (fun y hy => hkeys y (List.mem_cons_of_mem _ hy)) hname
        (by rw [hcommitted₃, hcommitted, hcommand₃]; exact hrecord)
        (by rw [hbucket₃]; exact hobject)
      obtain ⟨es', e', -, hexec', hshow'⟩ := hshow₃.run hrun₃
      have hlast := hspared.run hsound hexec'
      have hcommand' : e'.command = command := (Execution.command_run hexec').trans hcommand₃
      refine ⟨?_, by rw [← hshow'.bucket]; exact hlast.object⟩
      rw [← show e'.store.downloaded = _ from congrArg Tables.downloaded hshow'.tables,
        ← hcommand']
      exact hlast.record

/-- Two names arrive, and the file of the first one is stored. -/
def firstStored : List SessionEvent :=
  [.database 1 [] none .done, .remote 1 (.done (.names ["x", "y"])), .database 1 [] none .done,
    .remote 1 (.done (.archive [⟨"x", [1]⟩, ⟨"y", [2]⟩])), .remote 1 (.done .next),
    .database 1 [] none .done, .database 1 [] none .done, .remote 1 (.done (.stored 1)),
    .database 1 [] none .done, .remote 1 (.done .next)]

/-- The check for the second file raises, and then nothing fails any more. -/
def checkRaises : List SessionEvent :=
  [.database 1 [] (some (.other "timeout")) .done, .remote 1 (.done .done),
    .database 1 [] none .done, .database 1 [] none .done]

/-- The names that the batch has stored before a check. -/
def Handler.checkedAfter : Handler → List String
  | .checkExists f _ _ => f.batchFileEntities.map File.filename
  | _ => []

/-- That run is over, the task has failed, and `x` counts as downloaded. -/
theorem failed_check_forgets_first : ∃ r r',
    (SessionRun.sessionRuns (fun _ => 0) plainErrors).run
      (.start ⟨"t", none⟩ 0 Execution.claimedStore) firstStored = some r ∧
    (SessionRun.sessionRuns (fun _ => 0) plainErrors).run r checkRaises = some r' ∧
    r'.handler.isEnded = true ∧
    r'.session.committed.downloaded.exists_ "t" "x" = true ∧ r'.bucket "files/x" = none := by
  obtain ⟨r, hrun, hp⟩ := (Option.any_eq_true ..).mp
    (by decide +kernel : ((SessionRun.sessionRuns (fun _ => 0) plainErrors).run
      (.start ⟨"t", none⟩ 0 Execution.claimedStore) firstStored).any (fun r =>
        r.handler.checkedAfter = ["x"] &&
        ((SessionRun.sessionRuns (fun _ => 0) plainErrors).run r checkRaises).any fun r' =>
          r'.handler.isEnded) = true)
  rw [Bool.and_eq_true] at hp
  obtain ⟨r', hrun', hended⟩ := (Option.any_eq_true ..).mp hp.2
  have hx : r.handler.checkedAfter = ["x"] := of_decide_eq_true hp.1
  cases hk : r.handler with
  | checkExists f extracted rest =>
    rw [hk] at hx
    obtain ⟨file, files, hf, hname, -⟩ := List.map_eq_cons_iff.mp hx
    obtain ⟨hrecord, hobject⟩ := failed_check_forgets (fun _ => 0) plainErrors ⟨"t", none⟩ 0
      Execution.claimedStore Execution.claimedRow.toDomain rfl rfl firstStored r hrun f extracted
      rest file files hk hf 1 1 [] (.other "timeout") .done (.done .done)
      (fun _ h => by cases h) _ r' hrun'
    rw [hname] at hrecord hobject
    exact ⟨r, r', hrun, hrun', hended, hrecord, hobject⟩
  | _ => rw [hk] at hx; cases hx

end FileExtractor

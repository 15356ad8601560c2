import FileExtractor.Worker.Batches

/-!
# The calls of a run, whatever fails

`Traced` describes the calls of a run whose calls have succeeded. Here any call may fail, with or
without an effect, also those of the cleanup.

* `Ordered calls`: the downloads and the marks are those of batches of one to three names, each
  download before its mark, and the batches are the names that the run has got, in order; the last
  batch may lack its mark.
* `Undoes calls h`: before a cleanup nothing is deleted, and the files of the batch are those whose
  insertion was answered since the last mark (`unmarked`); one that raises after its effect is not
  among them. A cleanup deletes these files one after the other, first the object and then the rows.
  `Handler.undoing` is what it has left to delete.
-/

namespace FileExtractor

open Lts

/-- A call that undoes the storing of a file. -/
inductive Deletion where
  | object (key : String)
  | rows (taskId : TaskId) (file : File)

/-- The cleanup of one file. -/
def Deletion.both (taskId : TaskId) (file : File) : List Deletion :=
  [object (Handler.storageKey file.filename), rows taskId file]

def Call.deletion : Call → Option Deletion
  | deleteObject key => some (.object key)
  | deleteFile taskId file => some (.rows taskId file)
  | _ => none

/-- The deletions of a run. -/
def deletions (calls : List (Call × Reply)) : List Deletion :=
  calls.filterMap fun p => p.1.deletion

/-- One call more: an insertion that is answered, or a mark that is. -/
def unmarkedAfter (files : List File) : Call × Reply → List File
  | (.addFile _ file _, .done _) => files ++ [file]
  | (.markDownloaded _ _, .done _) => []
  | _ => files

/-- The files whose insertion was answered since the last mark that was. -/
def unmarked (calls : List (Call × Reply)) : List File := calls.foldl unmarkedAfter []

/-- The batches that the run has asked for, the last one perhaps without its mark. -/
def Ordered (calls : List (Call × Reply)) : Prop :=
  ∃ batches : List (List String), (∀ b ∈ batches, b ≠ [] ∧ b.length ≤ 3) ∧
    transfers calls <+: batches.flatMap Transfer.both ∧
    batches.flatten <+: (asked calls).flatten

theorem deletions_concat (calls : List (Call × Reply)) (p : Call × Reply) :
    deletions (calls ++ [p]) = deletions calls ++ p.1.deletion.toList := by
  unfold deletions
  rw [List.filterMap_append]
  cases hp : p.1.deletion <;> simp [hp]

theorem unmarked_concat (calls : List (Call × Reply)) (p : Call × Reply) :
    unmarked (calls ++ [p]) = unmarkedAfter (unmarked calls) p := by
  simp [unmarked, List.foldl_append]

/-- A call that fails inserts and marks nothing. -/
theorem unmarkedAfter_failed (files : List File) (call : Call) {reply : Reply} {x : Exn}
    (hr : reply.seen = .error x) : unmarkedAfter files (call, reply) = files := by
  cases reply with
  | done a => cases hr
  | _ => cases call <;> rfl

namespace Handler

/-- The deletions that are left, once the batch is given up or the run is about to end. -/
def undoing (taskId : TaskId) : Handler → Option (List Deletion)
  | deleteObject _ _ key file todo =>
    some (.object key :: .rows taskId file :: todo.flatMap (Deletion.both taskId))
  | deleteRows _ _ file todo => some (.rows taskId file :: todo.flatMap (Deletion.both taskId))
  | storeBlocked _ | storeSuccess _ | storeFailed _ | ended _ => some []
  | _ => none

/-- The files of the batch that is handled. -/
def files (h : Handler) : List File := h.batching.elim [] Frame.batchFileEntities

variable {sha256 : Bytes → Digest} {now : Time} {h h' : Handler} {f : Frame} {a : Answer}
  {call : Call} {calls : List (Call × Reply)} {command : ProcessFilesCommand} {taskId : TaskId}

theorem undoing_failTask (e : Exn) : (failTask now f e).undoing taskId = some [] := by
  unfold failTask
  split <;> rfl

theorem Ending.undoing {e : Exn} (hE : Ending now f e h) : h.undoing taskId = some [] := by
  cases hE <;> rfl

/-- A cleanup has all its files left to delete. -/
theorem Cleaning.undoing {e : Exn} {todo : List File} (hc : Cleaning now f e todo h) :
    h.undoing taskId = some (todo.flatMap (Deletion.both taskId)) := by
  cases hc with
  | file file todo => rfl
  | finished h hE => exact hE.undoing

/-- After an exception the batch is given up, or the run is about to end. -/
theorem Failed.undoing_isSome {e : Exn} (ha : Failed now h e h') :
    (h'.undoing taskId).isSome := by
  cases ha with
  | names f e h hE => rw [hE.undoing]; rfl
  | batch f h hh e h' hc => rw [hc.undoing]; rfl
  | rows f e file todo e' h hc => rw [hc.undoing]; rfl
  | closing f h hh e => rw [undoing_failTask]; rfl
  | unread | storing | object | unstored => rfl

/-- No answer takes up a batch that has been given up. -/
theorem Answered.undoing_isSome (ha : Answered sha256 now h a h')
    (hu : (h.undoing taskId).isSome) : (h'.undoing taskId).isSome := by
  cases ha with
  | rowsDeleted f e file todo h hc => rw [hc.undoing]; rfl
  | objectDeleted | closed => rfl
  | _ => cases hu

/-- **A cleanup goes on with what is left**: an answer leaves what the call has not deleted. -/
theorem Answered.undoing_next {rest : List Deletion} (ha : Answered sha256 now h a h')
    (hc : h.call command = some call) (hid : ∀ f, h.frame = some f → f.task.id = taskId)
    (hu : h.undoing taskId = some rest) :
    ∃ rest', h'.undoing taskId = some rest' ∧ rest = call.deletion.toList ++ rest' := by
  cases ha with
  | objectDeleted f e key file todo => cases hc; cases hu; exact ⟨_, rfl, rfl⟩
  | rowsDeleted f e file todo h hcl =>
    cases hc; cases hu
    exact ⟨_, hcl.undoing, by rw [hid f rfl]; rfl⟩
  | closed f h hh =>
    rcases hh with rfl | rfl | rfl <;> cases hc <;> cases hu <;> exact ⟨_, rfl, rfl⟩
  | _ => cases hu

/-- And so does an exception, which the cleanup swallows. -/
theorem Failed.undoing_next {e : Exn} {rest : List Deletion} (ha : Failed now h e h')
    (hc : h.call command = some call) (hid : ∀ f, h.frame = some f → f.task.id = taskId)
    (hu : h.undoing taskId = some rest) :
    ∃ rest', h'.undoing taskId = some rest' ∧ rest = call.deletion.toList ++ rest' := by
  cases ha with
  | object f e key file todo e' => cases hc; cases hu; exact ⟨_, rfl, rfl⟩
  | rows f e file todo e' h hcl =>
    cases hc; cases hu
    exact ⟨_, hcl.undoing, by rw [hid f rfl]; rfl⟩
  | closing f h hh e =>
    rcases hh with rfl | rfl <;> cases hc <;> cases hu <;> exact ⟨_, undoing_failTask e, rfl⟩
  | unstored f e => cases hc; cases hu; exact ⟨_, rfl, rfl⟩
  | storing f h hh => rcases hh with rfl | rfl <;> cases hu
  | batch f h hh => cases h <;> cases hh <;> cases hu
  | _ => cases hu

theorem recovering_of_undoing (hu : h.undoing taskId = none) : h.recovering = false := by
  cases h <;> first | rfl | cases hu

/-! ## The order of the batches -/

/-- With the awaited call the batch that is handled has been asked for in part. -/
theorem attempted (hc : h.call command = some call) (hu : h.undoing taskId = none) (hf : h.Fed) :
    h.opened ++ call.transfer.toList = [] ∨ ∃ b rest, b ≠ [] ∧ b.length ≤ 3 ∧
      h.opened ++ call.transfer.toList <+: Transfer.both b ∧ h.unprocessed = b ++ rest := by
  cases h with
  | getTask | names | storeReceived | storeProcessed => cases hc; exact .inl rfl
  | mark f => cases hc; exact .inr ⟨f.batch, f.pending, hf.1, hf.2, List.prefix_refl _, rfl⟩
  | deleteObject | deleteRows | storeBlocked | storeSuccess | storeFailed | ended => cases hu
  | _ => cases hc; exact .inr ⟨_, _, hf.1, hf.2, List.prefix_append [_] [_], rfl⟩

end Handler

section Calls

variable {sha256 : Bytes → Digest} {now : Time} {h h' : Handler} {a : Answer} {call : Call}
  {calls : List (Call × Reply)} {command : ProcessFilesCommand} {taskId : TaskId}

/-- The order of the batches up to the first call that fails, and of this call. -/
theorem Traced.ordered (ht : Traced calls h) (hc : h.call command = some call)
    (hu : h.undoing taskId = none) (hf : h.Fed) (reply : Reply) :
    Ordered (calls ++ [(call, reply)]) := by
  obtain ⟨batches, hsize, htransfers, hnames⟩ := ht
  have hasked : (asked calls).flatten <+: (asked (calls ++ [(call, reply)])).flatten := by
    rw [asked_concat, List.flatten_append]
    exact List.prefix_append _ _
  have htr : transfers (calls ++ [(call, reply)]) =
      batches.flatMap Transfer.both ++ (h.opened ++ call.transfer.toList) := by
    rw [transfers_concat, htransfers, List.append_assoc]
  rcases Handler.attempted hc hu hf with hnil | ⟨b, rest, hne, hle, hpre, hun⟩
  · refine ⟨batches, hsize, ?_, ?_⟩
    · rw [htr, hnil, List.append_nil]
    · exact (hnames ▸ List.prefix_append _ _ : batches.flatten <+: (asked calls).flatten).trans
        hasked
  · refine ⟨batches ++ [b], fun b' hb' => ?_, ?_, ?_⟩
    · rcases List.mem_append.mp hb' with hb' | hb'
      · exact hsize b' hb'
      · rw [List.mem_singleton.mp hb']; exact ⟨hne, hle⟩
    · rw [htr, List.flatMap_append, List.flatMap_singleton]
      exact (List.prefix_append_right_inj _).mpr hpre
    · refine List.IsPrefix.trans ?_ hasked
      rw [← hnames, hun, List.flatten_append, List.flatten_singleton]
      exact (List.prefix_append_right_inj _).mpr (List.prefix_append _ _)

/-- No batch is asked for after that. -/
theorem Ordered.concat (ho : Ordered calls) (hc : h.call command = some call)
    (hu : (h.undoing taskId).isSome) (reply : Reply) : Ordered (calls ++ [(call, reply)]) := by
  obtain ⟨batches, hsize, htransfers, hnames⟩ := ho
  have htr : call.transfer = none := by
    cases h <;> first | (cases hc <;> rfl) | cases hu
  refine ⟨batches, hsize, ?_, ?_⟩
  · rw [transfers_concat, htr]
    exact (List.append_nil _).symm ▸ htransfers
  · rw [asked_concat, List.flatten_append]
    exact hnames.trans (List.prefix_append _ _)

/-! ## The deletions -/

/-- What a run has deleted and has left to delete are the files that it has inserted and not
marked. -/
structure Undoes (calls : List (Call × Reply)) (taskId : TaskId) (h : Handler) : Prop where
  before : h.undoing taskId = none → deletions calls = [] ∧ unmarked calls = h.files
  undone : ∀ rest, h.undoing taskId = some rest →
    deletions calls ++ rest = (unmarked calls).flatMap (Deletion.both taskId)

/-- The lists after a call that deletes nothing. -/
theorem deletions_kept (hd : call.deletion = none) (reply : Reply) :
    deletions (calls ++ [(call, reply)]) = deletions calls := by
  rw [deletions_concat, hd]; exact List.append_nil _

/-- A cleanup inserts and marks nothing. -/
theorem unmarkedAfter_undoing {rest : List Deletion} {files : List File} {reply : Reply}
    (hc : h.call command = some call) (hu : h.undoing taskId = some rest) :
    unmarkedAfter files (call, reply) = files := by
  cases h with
  | ended => cases hc
  | _ => first | (cases hc; rfl) | cases hu

/-- **The deletions after an answer.** -/
theorem Undoes.answered (hu : Undoes calls taskId h) (ha : Handler.Answered sha256 now h a h')
    (hc : h.call command = some call) (hid : ∀ f, h.frame = some f → f.task.id = taskId) :
    Undoes (calls ++ [(call, .done a)]) taskId h' := by
  cases hr : h.undoing taskId with
  | some rest =>
    -- in a cleanup: what is deleted is no longer left
    obtain ⟨rest', hr', he⟩ := ha.undoing_next hc hid hr
    refine ⟨fun hn => (by rw [hr'] at hn; cases hn), fun rest'' hrest => ?_⟩
    rw [hr'] at hrest; cases hrest
    rw [deletions_concat, unmarked_concat, unmarkedAfter_undoing hc hr, ← hu.undone rest hr, he,
      List.append_assoc]
  | none =>
    -- before one: the files of the new state are those of the answered call
    obtain ⟨hnil, hun⟩ := hu.before hr
    have going : ∀ {files : List File}, call.deletion = none → h'.files = files →
        unmarkedAfter h.files (call, .done a) = files →
        (h'.undoing taskId = none ∨ h'.undoing taskId = some [] ∧ files = []) →
        Undoes (calls ++ [(call, .done a)]) taskId h' := by
      intro files hd hf hfiles hnext
      have hun' : unmarked (calls ++ [(call, .done a)]) = files := by
        rw [unmarked_concat, hun, hfiles]
      have hdel : deletions (calls ++ [(call, .done a)]) = [] := by rw [deletions_kept hd, hnil]
      refine ⟨fun _ => ⟨hdel, by rw [hun', hf]⟩, fun rest hrest => ?_⟩
      rcases hnext with hnext | ⟨hnext, hfn⟩
      · rw [hnext] at hrest; cases hrest
      · rw [hnext] at hrest; cases hrest
        rw [hdel, hun', hfn]; rfl
    cases ha with
    | objectDeleted | rowsDeleted => cases hr
    | closed f h hh => rcases hh with rfl | rfl | rfl <;> cases hr
    | absent => cases hc; exact going rfl rfl rfl (.inr ⟨rfl, rfl⟩)
    | completed f hp => cases hc; exact going rfl rfl rfl (.inr ⟨rfl, rfl⟩)
    | _ => cases hc; exact going rfl rfl rfl (.inl rfl)

/-- **The deletions after an exception.** -/
theorem Undoes.failed {reply : Reply} {e : Exn} (hu : Undoes calls taskId h)
    (hx : reply.seen = .error e) (ha : Handler.Failed now h e h')
    (hc : h.call command = some call) (hid : ∀ f, h.frame = some f → f.task.id = taskId) :
    Undoes (calls ++ [(call, reply)]) taskId h' := by
  have hkeep : unmarked (calls ++ [(call, reply)]) = unmarked calls := by
    rw [unmarked_concat, unmarkedAfter_failed _ _ hx]
  obtain ⟨rest', hr'⟩ := Option.isSome_iff_exists.mp ha.undoing_isSome
  refine ⟨fun hn => (by rw [hr'] at hn; cases hn), fun rest'' hrest => ?_⟩
  rw [hr'] at hrest; cases hrest
  cases hr : h.undoing taskId with
  | some rest =>
    obtain ⟨rest'', hr'', he⟩ := ha.undoing_next hc hid hr
    rw [hr'] at hr''; cases hr''
    rw [deletions_concat, hkeep, ← hu.undone rest hr, he, List.append_assoc]
  | none =>
    obtain ⟨hnil, hun⟩ := hu.before hr
    have given_up : call.deletion = none → h.files.flatMap (Deletion.both taskId) = rest' →
        deletions (calls ++ [(call, reply)]) ++ rest' =
          (unmarked (calls ++ [(call, reply)])).flatMap (Deletion.both taskId) := by
      intro hd hrest
      rw [deletions_kept hd, hnil, hkeep, hun, hrest]; rfl
    cases ha with
    | object | rows | unstored => cases hr
    | closing f h hh => rcases hh with rfl | rfl <;> cases hr
    | unread e => cases hr'; cases hc; exact given_up rfl rfl
    | names f e h hE => rw [hE.undoing] at hr'; cases hr'; cases hc; exact given_up rfl rfl
    | storing f h hh e =>
      cases hr'
      rcases hh with rfl | rfl <;> cases hc <;> exact given_up rfl rfl
    | batch f h hh e h' hcl =>
      rw [hcl.undoing] at hr'; cases hr'
      refine given_up ?_ ?_
      · cases h <;> first | (cases hc; rfl) | cases hh
      · rw [Handler.files, hh]; rfl

end Calls

namespace Execution

variable {sha256 : Bytes → Digest} {e e' : Execution} {ev : Event} {s : DownloadTask}

/-- A run on the row `s`, in which any call may fail. -/
structure Orderly (s : DownloadTask) (e : Execution) : Prop where
  sound : Sound s.candidateId e
  fed : e.handler.Fed
  traced : e.handler.undoing e.command.taskId = none → Traced e.calls e.handler
  ordered : Ordered e.calls
  undoes : Undoes e.calls e.command.taskId e.handler

theorem orderly_start {command : ProcessFilesCommand} {now : Time} {store : Store}
    (hs : store.tasks.getById command.taskId = some s) (hr : s.status = .running) :
    Orderly s (start command now store) where
  sound := sound_start hs hr
  fed := trivial
  traced _ := ⟨[], fun _ h => (by cases h), rfl, rfl⟩
  ordered := ⟨[], fun _ h => (by cases h), List.nil_prefix, List.nil_prefix⟩
  undoes := ⟨fun _ => ⟨rfl, rfl⟩, fun _ h => by cases h⟩

/-- **Every event keeps it.** -/
theorem Orderly.step (h : Orderly s e) (hst : (executions sha256).step e ev = some e') :
    Orderly s e' := by
  obtain ⟨call, hcall, hcalls⟩ := calls_step hst
  have hcommand := (command_step hst).1
  have hordered : Ordered e'.calls := by
    rw [hcalls]
    cases hu : e.handler.undoing e.command.taskId with
    | none => exact (h.traced hu).ordered hcall hu h.fed ev.reply
    | some rest =>
      have hsome : (e.handler.undoing e.command.taskId).isSome := by rw [hu]; rfl
      exact h.ordered.concat hcall hsome ev.reply
  have hid : ∀ f, e.handler.frame = some f → f.task.id = e.command.taskId :=
    fun f hf => h.sound.taskId hf
  cases hf : ev.reply.failed with
  | false =>
    obtain ⟨a, ha⟩ := Reply.of_not_failed hf
    have hans := h.sound.answered hst ha
    rw [ha] at hcalls
    refine ⟨h.sound.step hst, hans.fed h.fed, fun hn => ?_, hordered, ?_⟩
    · rw [hcommand] at hn
      have hu : e.handler.undoing e.command.taskId = none := by
        by_contra hne
        have := hans.undoing_isSome (Option.isSome_iff_ne_none.mpr hne)
        rw [hn] at this; cases this
      rw [hcalls]
      exact hans.traced hcall (Handler.recovering_of_undoing hu) h.fed (h.traced hu)
    · rw [hcalls, hcommand]
      exact h.undoes.answered hans hcall hid
  | true =>
    obtain ⟨x, hx⟩ := Reply.seen_failed hf
    have hfailed := h.sound.failed hst hx
    refine ⟨h.sound.step hst, hfailed.fed h.fed, fun hn => ?_, hordered, ?_⟩
    · have hsome : (e'.handler.undoing e'.command.taskId).isSome := hfailed.undoing_isSome
      rw [hn] at hsome; cases hsome
    · rw [hcalls, hcommand]
      exact h.undoes.failed hx hfailed hcall hid

/-- Every run on a `RUNNING` row is orderly. -/
theorem orderly_run {command : ProcessFilesCommand} {now : Time} {store : Store}
    (hs : store.tasks.getById command.taskId = some s) (hr : s.status = .running)
    {evs : List Event} (hrun : (executions sha256).run (start command now store) evs = some e) :
    Orderly s e :=
  System.run_keeps (fun _ _ _ h _ hst => h.step hst) (orderly_start hs hr) System.guarded_free hrun

/-- **The API is asked for the batches in order**, in every run on a `RUNNING` row, whichever of its
calls fail, with or without an effect: the downloads and the marks so far are a beginning of those
of some batches of one to three names, a mark always for the batch that was downloaded right before
it, and these batches are a beginning of the names that the API has given, in order. -/
theorem batches_in_order (sha256 : Bytes → Digest) (command : ProcessFilesCommand) (now : Time)
    (store : Store) (s : DownloadTask) (hs : store.tasks.getById command.taskId = some s)
    (hr : s.status = .running) (evs : List Event) (e : Execution)
    (hrun : (executions sha256).run (start command now store) evs = some e) :
    ∃ batches : List (List String), (∀ b ∈ batches, b ≠ [] ∧ b.length ≤ 3) ∧
      transfers e.calls <+: batches.flatMap Transfer.both ∧
      batches.flatten <+: (FileExtractor.asked e.calls).flatten :=
  (orderly_run hs hr hrun).ordered

/-- One file is stored, its mark fails, and so does the deletion of its object. -/
def markFails : List Event :=
  [taskRead, ⟨1, .done (.names ["x"])⟩, ⟨1, .done .done⟩, ⟨1, .done (.archive [⟨"x", [1]⟩])⟩,
    ⟨1, .done .next⟩, ⟨1, .done .done⟩, ⟨1, .done (.found false)⟩, ⟨1, .done (.stored 1)⟩,
    ⟨1, .done .done⟩, ⟨1, .done .next⟩, ⟨1, .refused (.other "")⟩, ⟨1, .lost (.other "")⟩,
    ⟨1, .done .done⟩, ⟨1, .done .done⟩]

/-- The batch of that run. -/
theorem failed_mark_in_order : ∃ e,
    (executions fun _ => 0).run (start ⟨"t", none⟩ 0 claimedStore) markFails = some e ∧
    transfers e.calls = [.download ["x"], .mark ["x"]] ∧
    ∃ batches : List (List String), (∀ b ∈ batches, b ≠ [] ∧ b.length ≤ 3) ∧
      transfers e.calls <+: batches.flatMap Transfer.both ∧
      batches.flatten <+: (FileExtractor.asked e.calls).flatten := by
  obtain ⟨e, hrun, hp⟩ := (Option.any_eq_true ..).mp
    (by decide +kernel : ((executions fun _ => 0).run (start ⟨"t", none⟩ 0 claimedStore)
      markFails).any (fun e => transfers e.calls = [.download ["x"], .mark ["x"]]) = true)
  exact ⟨e, hrun, of_decide_eq_true hp,
    batches_in_order _ ⟨"t", none⟩ 0 claimedStore claimedRow.toDomain rfl rfl markFails e hrun⟩

/-- **A batch is acknowledged or undone**, in every run on a `RUNNING` row, whichever of its calls
fail, also those of the cleanup. The deletions that the run asks for are a beginning of those of the
files whose insertion was answered since its last acknowledged mark, for each file first the object
and then the rows, once and in the order of the insertions; and when the run is over they are all of
them. -/
theorem batch_acknowledged_or_undone (sha256 : Bytes → Digest) (command : ProcessFilesCommand)
    (now : Time) (store : Store) (s : DownloadTask)
    (hs : store.tasks.getById command.taskId = some s) (hr : s.status = .running)
    (evs : List Event) (e : Execution)
    (hrun : (executions sha256).run (start command now store) evs = some e) :
    deletions e.calls <+: (unmarked e.calls).flatMap (Deletion.both command.taskId) ∧
    (e.handler.isEnded = true →
      deletions e.calls = (unmarked e.calls).flatMap (Deletion.both command.taskId)) := by
  have hu := (orderly_run hs hr hrun).undoes
  have hcommand : e.command = command := command_run hrun
  rw [hcommand] at hu
  constructor
  · cases hr : e.handler.undoing command.taskId with
    | none =>
      rw [(hu.before hr).1]
      exact List.nil_prefix
    | some rest => exact ⟨rest, hu.undone rest hr⟩
  · intro he
    have hend : e.handler.undoing command.taskId = some [] := by
      cases hk : e.handler <;> rw [hk] at he <;> first | rfl | cases he
    rw [← hu.undone [] hend, List.append_nil]

/-- The file of that run is deleted. -/
theorem failed_mark_undone : ∃ e,
    (executions fun _ => 0).run (start ⟨"t", none⟩ 0 claimedStore) markFails = some e ∧
    (unmarked e.calls).length = 1 ∧
    deletions e.calls = (unmarked e.calls).flatMap (Deletion.both "t") := by
  obtain ⟨e, hrun, hp⟩ := (Option.any_eq_true ..).mp
    (by decide +kernel : ((executions fun _ => 0).run (start ⟨"t", none⟩ 0 claimedStore)
      markFails).any (fun e => e.handler.isEnded && (unmarked e.calls).length = 1) = true)
  rw [Bool.and_eq_true] at hp
  exact ⟨e, hrun, of_decide_eq_true hp.2,
    (batch_acknowledged_or_undone _ ⟨"t", none⟩ 0 claimedStore claimedRow.toDomain rfl rfl markFails
      e hrun).2 hp.1⟩

end Execution

end FileExtractor

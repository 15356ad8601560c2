import FileExtractor.Worker.Batches
import Mathlib.Data.Fintype.EquivFin
import Mathlib.Data.Prod.Lex

/-!
# The batching loop ends

A run whose calls succeed and whose `n`-th `get_file_names` is answered `answers n`. If only
finitely many of these answers are not empty the run comes to a success, and then `Batched` says
what it has done. The measure is lexicographic: the answers that may still have names, the
outstanding names, the phase of the loop (`phase`), and the rest of the archive (`left`).
-/

namespace FileExtractor

open Rel Lts

namespace Handler

/-- How far the handler is from the end of the loop with the same outstanding names. -/
def phase : Handler → Nat
  | getTask => 7
  | storeReceived _ | storeProcessed _ => 6
  | names _ => 5
  | download _ => 4
  | extract _ _ | storeHeartbeat _ _ _ | checkExists _ _ _ | upload _ _ _ | record _ _ _ _ => 3
  | mark _ => 2
  | storeSuccess _ => 1
  | deleteObject _ _ _ _ _ | deleteRows _ _ _ _ | storeBlocked _ | storeFailed _ | ended _ => 0

/-- How much of the archive is left. -/
def left : Handler → Nat
  | extract _ rest => 5 * rest.length
  | storeHeartbeat _ _ rest => 5 * rest.length + 4
  | checkExists _ _ rest => 5 * rest.length + 3
  | upload _ _ rest => 5 * rest.length + 2
  | record _ _ _ rest => 5 * rest.length + 1
  | _ => 0

/-- The file whose rows are added. -/
def added : Handler → Option File
  | record _ file _ _ => some file
  | _ => none

/-- The measure between two answers with names. -/
def distance (h : Handler) : ℕ ×ₗ ℕ ×ₗ ℕ := toLex (h.outstanding, toLex (h.phase, h.left))

variable {sha256 : Bytes → Digest} {now : Time} {h h' : Handler} {a : Answer}

theorem storing_of_added {file : File} (hf : h.added = some file) :
    h.storing = some file.filename := by
  cases h <;> first | (cases hf; rfl) | cases hf

theorem distance_of_phase (ho : h'.outstanding = h.outstanding) (hp : h'.phase < h.phase) :
    h'.distance < h.distance :=
  Prod.Lex.toLex_lt_toLex.mpr (.inr ⟨ho, Prod.Lex.toLex_lt_toLex.mpr (.inl hp)⟩)

theorem distance_of_left (ho : h'.outstanding = h.outstanding) (hp : h'.phase = h.phase)
    (hl : h'.left < h.left) : h'.distance < h.distance :=
  Prod.Lex.toLex_lt_toLex.mpr (.inr ⟨ho, Prod.Lex.toLex_lt_toLex.mpr (.inr ⟨hp, hl⟩)⟩)

/-- Every answer without names brings the run nearer to its end. -/
theorem Answered.distance (ha : Answered sha256 now h a h') (hr : h.recovering = false)
    (hf : h.Fed) : (∃ f fileNames, h = names f ∧ a = .names fileNames ∧ fileNames ≠ []) ∨
      h'.distance < h.distance := by
  cases ha with
  | named f fileNames hn => exact .inl ⟨f, fileNames, rfl, rfl, hn⟩
  | leftover f hp => exact .inr (distance_of_phase nextBatch_outstanding (of_decide_eq_true rfl))
  | completed f hp =>
    refine .inr (distance_of_phase ?_ (of_decide_eq_true rfl))
    simp [Handler.outstanding, hp]
  | received f => exact .inr (distance_of_phase nextBatch_outstanding (of_decide_eq_true rfl))
  | again f hp => exact .inr (distance_of_phase nextBatch_outstanding (of_decide_eq_true rfl))
  | beating f extracted rest hc =>
    refine .inr (distance_of_left rfl rfl ?_)
    simp only [left, List.length_cons]
    omega
  | entered f extracted rest hc =>
    refine .inr (distance_of_left rfl rfl ?_)
    simp only [left, countEntry, List.length_cons]
    omega
  | beaten f extracted rest => exact .inr (distance_of_left rfl rfl (Nat.lt_succ_self _))
  | skipped f extracted rest =>
    exact .inr (distance_of_left rfl rfl (Nat.lt_add_of_pos_right (by decide)))
  | missed | uploaded | recorded => exact .inr (distance_of_left rfl rfl (Nat.lt_succ_self _))
  | marked f =>
    refine .inr (Prod.Lex.toLex_lt_toLex.mpr (.inl ?_))
    have hb : f.batch ≠ [] := (hf : f.batch ≠ [] ∧ _).1
    have := List.length_pos_iff.mpr hb
    simp only [Handler.outstanding]
    omega
  | closed f h hh =>
    rcases hh with rfl | rfl | rfl
    · cases hr
    · exact .inr (distance_of_phase rfl (of_decide_eq_true rfl))
    · cases hr
  | objectDeleted | rowsDeleted => cases hr
  | _ => exact .inr (distance_of_phase rfl (of_decide_eq_true rfl))

end Handler

namespace Execution

/-- All calls succeed, the `n`-th `get_file_names` is answered `answers n`, and the UUID of a new
file is the id of no other file. -/
def Obeys (answers : Nat → List String) (e : Execution) (ev : Event) : Prop :=
  ev.reply.failed = false ∧
  (∀ f fileNames, e.handler = .names f → ev.reply = .done (.names fileNames) →
    fileNames = answers (asked e.calls).length) ∧
  ∀ f extracted rest fileId, e.handler = .upload f extracted rest →
    ev.reply = .done (.stored fileId) → e.store.files.get? fileId = none

/-- A run with these answers, which can always go on. -/
structure Drains (answers : Nat → List String) (s : DownloadTask) (e : Execution) : Prop where
  batched : Batched s e
  asked : asked e.calls = (List.range (asked e.calls).length).map answers
  newRecord : ∀ name, e.handler.storing = some name →
    e.store.downloaded.get? (e.command.taskId, name) = none
  newFile : ∀ file, e.handler.added = some file → e.store.files.get? file.id = none

variable {sha256 : Bytes → Digest} {e e' : Execution} {ev : Event} {s : DownloadTask}
  {answers : Nat → List String}

theorem drains_start {command : ProcessFilesCommand} {now : Time} {store : Store}
    (hs : store.tasks.getById command.taskId = some s) (hr : s.status = .running) :
    Drains answers s (start command now store) where
  batched := batched_start hs hr
  asked := rfl
  newRecord name hn := by cases hn
  newFile file hk := by cases hk

/-- The lists of names after an answer. -/
theorem asked_step (hst : (executions sha256).step e ev = some e') :
    FileExtractor.asked e'.calls = FileExtractor.asked e.calls ++ ev.reply.names.toList := by
  obtain ⟨call, -, hcalls⟩ := calls_step hst
  rw [hcalls, asked_concat]

theorem Drains.asked_step (h : Drains answers s e) (hok : Obeys answers e ev)
    (hst : (executions sha256).step e ev = some e') :
    FileExtractor.asked e'.calls =
      (List.range (FileExtractor.asked e'.calls).length).map answers := by
  rw [Execution.asked_step hst]
  cases hn : ev.reply.names with
  | none => rw [Option.toList_none, List.append_nil]; exact h.asked
  | some fileNames =>
    have ha := Reply.of_names hn
    have hans := h.batched.sound.answered hst ha
    obtain ⟨f, hk⟩ : ∃ f, e.handler = .names f := by
      generalize e.handler = k at hans
      generalize e'.handler = k' at hans
      cases hans <;> exact ⟨_, rfl⟩
    rw [hok.2.1 f fileNames hk ha, Option.toList_some, List.length_append, List.length_singleton,
      List.range_succ, List.map_append, ← h.asked]
    rfl

/-- The existence check and the new UUID keep the transaction for a file possible. -/
theorem Drains.storing_step (h : Drains answers s e) (hok : Obeys answers e ev)
    (hst : (executions sha256).step e ev = some e') :
    (∀ name, e'.handler.storing = some name →
      e'.store.downloaded.get? (e'.command.taskId, name) = none) ∧
    ∀ file, e'.handler.added = some file → e'.store.files.get? file.id = none := by
  obtain ⟨a, ha⟩ := Reply.of_not_failed hok.1
  have hsound := h.batched.sound
  have hans := hsound.answered hst ha
  rw [(command_step hst).1]
  refine ⟨fun name hn => ?_, fun file hf => ?_⟩
  · rcases hans.storing h.batched.going hn with ⟨f, extracted, rest, hk, rfl, -, rfl⟩ |
      ⟨f, extracted, rest, fileId, hk, rfl, -, rfl⟩
    · obtain ⟨hfound, hstore⟩ := hsound.found hst hk ha
      rw [hstore]
      exact Option.not_isSome_iff_eq_none.mp (Bool.eq_false_iff.mp hfound.symm)
    · have hcall : e.handler.call e.command =
          some (.uploadStream (Handler.storageKey extracted.filename) extracted.content) := by
        rw [hk]; rfl
      rw [← Option.some.inj (store_answered hst ha hcall).2]
      exact h.newRecord _ (by rw [hk]; rfl)
  · have hn : e'.handler.storing = some file.filename := Handler.storing_of_added hf
    rcases hans.storing h.batched.going hn with ⟨f, extracted, rest, -, -, hk', -⟩ |
      ⟨f, extracted, rest, fileId, hk, rfl, hk', -⟩
    · rw [hk'] at hf; cases hf
    · have hcall : e.handler.call e.command =
          some (.uploadStream (Handler.storageKey extracted.filename) extracted.content) := by
        rw [hk]; rfl
      rw [← Option.some.inj (store_answered hst ha hcall).2]
      rw [hk'] at hf; cases hf
      exact hok.2.2 f extracted rest fileId hk ha

/-- **Every call with these answers keeps it.** -/
theorem Drains.step (h : Drains answers s e) (hok : Obeys answers e ev)
    (hst : (executions sha256).step e ev = some e') : Drains answers s e' := by
  obtain ⟨hrecord, hfile⟩ := h.storing_step hok hst
  exact ⟨h.batched.step hok.1 hst, h.asked_step hok hst, hrecord, hfile⟩

/-- A UUID that no file has. -/
theorem exists_fileId (files : FileTable) : ∃ fileId, files.get? fileId = none := by
  obtain ⟨fileId, hn⟩ := Infinite.exists_notMem_finset (files.rows.map FileModel.id).toFinset
  refine ⟨fileId, Table.get?_eq_none.mpr fun m hm hid => hn ?_⟩
  rw [List.mem_toFinset, ← hid]
  exact List.mem_map_of_mem hm

/-- **The run can go on** with these answers. -/
theorem Drains.exists_step (h : Drains answers s e) (he : e.handler.isEnded = false)
    (sha256 : Bytes → Digest) :
    ∃ ev e', Obeys answers e ev ∧ (executions sha256).step e ev = some e' := by
  have hother : (∀ f, e.handler ≠ .names f) → (∀ f x rest, e.handler ≠ .upload f x rest) →
      e.handler.recording = false →
      ∃ ev e', Obeys answers e ev ∧ (executions sha256).step e ev = some e' := by
    intro hn hu hr
    obtain ⟨a, e', he'⟩ := Execution.exists_step sha256 he hr
    refine ⟨_, e', ⟨rfl, fun f _ hk => ?_, fun f x rest _ hk => ?_⟩, he'⟩
    · exact absurd hk (hn f)
    · exact absurd hk (hu f x rest)
  have hheld := h.batched.sound.held
  have hrecord := h.newRecord
  have hfile := h.newFile
  obtain ⟨command, now, store, handler, calls⟩ := e
  cases handler with
  | names f =>
    obtain ⟨e', he'⟩ : ∃ e', (executions sha256).step ⟨command, now, store, .names f, calls⟩
        ⟨0, .done (.names (answers (FileExtractor.asked calls).length))⟩ = some e' :=
      step_of_answer rfl rfl rfl rfl
    refine ⟨_, e', ⟨rfl, fun f' fileNames _ hr => ?_, fun _ _ _ _ hk => (by cases hk)⟩, he'⟩
    cases hr; rfl
  | upload f extracted rest =>
    obtain ⟨fileId, hnew⟩ := exists_fileId store.files
    obtain ⟨e', he'⟩ : ∃ e', (executions sha256).step
        ⟨command, now, store, .upload f extracted rest, calls⟩ ⟨0, .done (.stored fileId)⟩ =
          some e' := step_of_answer rfl rfl rfl rfl
    refine ⟨_, e', ⟨rfl, fun _ _ hk => (by cases hk), fun f' x rest' fileId' _ hr => ?_⟩, he'⟩
    cases hr; exact hnew
  | record f file fileHash rest =>
    obtain ⟨files, hfiles⟩ := Table.exists_insert (r := file.toModel) (hfile file rfl)
    have hid : f.task.id = command.taskId := hheld.2.1
    obtain ⟨downloaded, hdown⟩ := Table.exists_insert
      (r := (⟨f.task.id, file.filename, some fileHash.value⟩ : DownloadedFileModel))
      (t := store.downloaded) (by
        have := hrecord file.filename rfl
        rwa [← hid] at this)
    obtain ⟨e', he'⟩ : ∃ e', (executions sha256).step
        ⟨command, now, store, .record f file fileHash rest, calls⟩ ⟨0, .done .done⟩ = some e' := by
      refine step_of_answer rfl rfl (?_ : Store.apply command.taskId store _ = some { store with
        files := files, downloaded := downloaded,
        owner := Function.update store.owner file.id (some f.task.id) }) rfl
      simp only [Store.apply, FileTable.add, hfiles, DownloadedTable.record, hdown,
        Option.bind_eq_bind, Option.bind_some]
    exact ⟨_, e', ⟨rfl, fun _ _ hk => (by cases hk), fun _ _ _ _ hk => (by cases hk)⟩, he'⟩
  | ended => cases he
  | _ => exact hother (fun _ hk => by cases hk) (fun _ _ _ hk => by cases hk) rfl

/-- The measure of the loop: the lists that may still have names, and the distance. -/
def fuel (N : Nat) (e : Execution) : ℕ ×ₗ ℕ ×ₗ ℕ ×ₗ ℕ :=
  toLex (N - (FileExtractor.asked e.calls).length, e.handler.distance)

theorem Drains.fuel (h : Drains answers s e) (hok : Obeys answers e ev) {N : Nat}
    (hN : ∀ n ≥ N, answers n = []) (hst : (executions sha256).step e ev = some e') :
    e'.fuel N < e.fuel N := by
  obtain ⟨a, ha⟩ := Reply.of_not_failed hok.1
  have hasked := congrArg List.length (Execution.asked_step hst)
  rw [List.length_append] at hasked
  refine Prod.Lex.toLex_lt_toLex.mpr ?_
  rcases (h.batched.sound.answered hst ha).distance h.batched.going h.batched.fed with
    ⟨f, fileNames, hk, rfl, hne⟩ | hlt
  · have hlt : (FileExtractor.asked e.calls).length < N := by
      by_contra hge
      refine hne ?_
      rw [hok.2.1 f fileNames hk ha]
      exact hN _ (Nat.not_lt.mp hge)
    have hone : (ev.reply.names.toList).length = 1 := by rw [ha]; rfl
    exact .inl (by simp only; omega)
  · rcases Nat.lt_or_eq_of_le (by omega : N - (FileExtractor.asked e'.calls).length ≤
        N - (FileExtractor.asked e.calls).length) with hl | hl
    · exact .inl hl
    · exact .inr ⟨hl, hlt⟩

/-- What a run on the row `s` has done with the names that it has got. -/
structure Processed (answers : Nat → List String) (s : DownloadTask) (e : Execution) : Prop where
  success : e.handler = .ended none
  names : e.got = ((List.range (FileExtractor.asked e.calls).length).map answers).flatten
  stops : StopsAsking e.calls
  batches : ∃ batches : List (List String), batches.flatten = e.got ∧
    (∀ b ∈ batches, 1 ≤ b.length ∧ b.length ≤ 3) ∧
    transfers e.calls = batches.flatMap fun b => [.download b, .mark b]
  row : ∃ t, e.stored = some t ∧ t.status = .success ∧
    t.receivedFiles = s.receivedFiles + e.got.length ∧
    t.processedFiles = s.processedFiles + e.got.length

theorem Drains.processed (h : Drains answers s e) (he : e.handler.isEnded = true) :
    Processed answers s e := by
  obtain ⟨hend, t, ht, hs, hreceived, hprocessed⟩ := h.batched.ended he
  obtain ⟨batches, hsize, htransfers, hnames⟩ := h.batched.traced
  rw [hend] at htransfers hnames
  have hstops := h.batched.asking
  rw [hend] at hstops
  refine ⟨hend, by rw [got, ← h.asked], hstops, ⟨batches, ?_, fun b hb => ?_, ?_⟩, t, ht, hs,
    hreceived, ?_⟩
  · rw [got, ← hnames]; exact (List.append_nil _).symm
  · exact ⟨List.length_pos_iff.mpr (hsize b hb).1, (hsize b hb).2⟩
  · rw [htransfers]; exact List.append_nil _
  · simpa using hprocessed

/-- **The batching loop.** Whatever the calls answer, a run whose calls succeed comes to a success
if only finitely many lists of names are not empty. It has asked until it got an empty list with
nothing pending. Its batches of one to three names are the names that it has got, in order; each
batch is marked once, after its download and before the next download; and both counters have grown
by the number of the names. -/
theorem batches_drain (sha256 : Bytes → Digest) (command : ProcessFilesCommand) (now : Time)
    (store : Store) (s : DownloadTask) (hs : store.tasks.getById command.taskId = some s)
    (hr : s.status = .running) (answers : Nat → List String) (N : Nat)
    (hN : ∀ n ≥ N, answers n = []) :
    (executions sha256).Leads (Obeys answers) (Processed answers s) (start command now store) := by
  have hends : (executions sha256).Leads (Obeys answers)
      (fun e => Drains answers s e ∧ e.handler.isEnded = true) (start command now store) := by
    refine System.Leads.of_measure (I := Drains answers s) wellFounded_lt (fuel N)
      (fun e h hne => ?_) (fun e ev e' h _ hok hst => ⟨h.step hok hst, h.fuel hok hN hst⟩)
      (drains_start hs hr)
    refine h.exists_step (Bool.eq_false_iff.mpr fun he => hne ⟨h, he⟩) sha256
  exact hends.mono fun e he => he.1.processed he.2

/-- Five names, and then no more: some run has processed them. -/
theorem five_names_drain : ∃ evs e,
    (executions fun _ => 0).run (start ⟨"t", none⟩ 0 claimedStore) evs = some e ∧
    Processed (fun n => if n = 0 then ["u", "v", "x", "y", "z"] else []) claimedRow.toDomain e := by
  obtain ⟨evs, e, -, hrun, he⟩ := (batches_drain (fun _ => 0) ⟨"t", none⟩ 0 claimedStore
    claimedRow.toDomain rfl rfl (fun n => if n = 0 then ["u", "v", "x", "y", "z"] else []) 1
    fun n hn => if_neg (Nat.ne_of_gt hn)).exists_run
  exact ⟨evs, e, hrun, he⟩

end Execution

end FileExtractor

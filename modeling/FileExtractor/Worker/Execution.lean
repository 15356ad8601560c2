import FileExtractor.Lib.Inevitable
import FileExtractor.Application.Answers
import FileExtractor.Worker.Effects

/-!
# One run of `execute`

A run of `ProcessFilesHandler.execute` on any store, while no other process touches it. An `Event`
answers the awaited call after some time; the run keeps the calls that it has made with their
replies (`calls`). Each event is two steps of the system (`run_in_world`).

`Sound c` is what every proof about a run starts from: the row is `RUNNING` until the run ends, the
copy has its id and its candidate, and every file of the batch has its own key. Then a write that
takes effect makes the stored task the copy (`Sound.written`).
-/

namespace FileExtractor

open Rel Lts World

/-- The reply to the awaited call, and the time until it. -/
structure Event where
  elapsed : Time
  reply : Reply

structure Execution where
  command : ProcessFilesCommand
  now : Time
  store : Store
  handler : Handler
  calls : List (Call × Reply)

namespace Execution

/-- `execute(command)` is called. -/
def start (command : ProcessFilesCommand) (now : Time) (store : Store) : Execution :=
  ⟨command, now, store, .getTask, []⟩

def step (sha256 : Bytes → Digest) (e : Execution) (ev : Event) : Option Execution :=
  if 0 ≤ ev.elapsed then do
    let c ← e.handler.call e.command
    let store ← e.store.serve e.command.taskId c ev.reply
    let handler ← e.handler.resume sha256 (e.now + ev.elapsed) ev.reply.seen
    some { e with
      now := e.now + ev.elapsed
      store := store
      handler := handler
      calls := e.calls ++ [(c, ev.reply)] }
  else none

/-- The runs of `execute`. -/
def executions (sha256 : Bytes → Digest) : System Execution Event where
  init e := ∃ command now store, e = start command now store
  step := step sha256

/-- The call succeeds. -/
def Succeeds (_ : Execution) (ev : Event) : Prop := ev.reply.failed = false

/-- A task that has just been claimed, and a store with nothing else. -/
def claimedRow : DownloadTaskModel := (DownloadTask.new "t" "c").toModel.claimed "a" 0

def claimedStore : Store := { Store.empty fun _ => none with tasks := ⟨[claimedRow], by simp⟩ }

/-- Its handler reads the task. -/
def taskRead : Event := ⟨1, .done (.task (some claimedRow.toDomain))⟩

/-- The stored task. -/
def stored (e : Execution) : Option DownloadTask := e.store.tasks.getById e.command.taskId

variable {sha256 : Bytes → Digest} {e e' : Execution} {ev : Event}

/-- An event in full. -/
theorem step_eq (h : (executions sha256).step e ev = some e') :
    ∃ c store handler, 0 ≤ ev.elapsed ∧ e.handler.call e.command = some c ∧
      e.store.serve e.command.taskId c ev.reply = some store ∧
      e.handler.resume sha256 (e.now + ev.elapsed) ev.reply.seen = some handler ∧
      e' = { e with
        now := e.now + ev.elapsed, store := store, handler := handler
        calls := e.calls ++ [(c, ev.reply)] } := by
  replace h : step sha256 e ev = some e' := h
  unfold step at h
  split at h
  · next ht =>
    obtain ⟨c, hc, h⟩ := Option.bind_eq_some_iff.mp h
    obtain ⟨store, hs, h⟩ := Option.bind_eq_some_iff.mp h
    obtain ⟨handler, hr, h⟩ := Option.bind_eq_some_iff.mp h
    cases h; exact ⟨c, store, handler, ht, hc, hs, hr, rfl⟩
  · cases h

theorem calls_step (h : (executions sha256).step e ev = some e') :
    ∃ c, e.handler.call e.command = some c ∧ e'.calls = e.calls ++ [(c, ev.reply)] := by
  obtain ⟨c, store, handler, -, hc, -, -, rfl⟩ := step_eq h
  exact ⟨c, hc, rfl⟩

theorem command_step (h : (executions sha256).step e ev = some e') :
    e'.command = e.command ∧ e'.now = e.now + ev.elapsed := by
  obtain ⟨c, store, handler, -, -, -, -, rfl⟩ := step_eq h
  exact ⟨rfl, rfl⟩

theorem command_run {evs : List Event} (h : (executions sha256).run e evs = some e') :
    e'.command = e.command :=
  System.run_keeps (I := fun x => x.command = e.command)
    (fun _ _ _ hx _ hst => (command_step hst).1.trans hx) rfl System.guarded_free h

/-- Before a download nothing of its batch is stored. -/
theorem download_empty {command : ProcessFilesCommand} {now : Time} {store : Store}
    {evs : List Event} {f : Frame}
    (h : (executions sha256).run (start command now store) evs = some e)
    (hk : e.handler = .download f) : f.batchFileEntities = [] := by
  refine System.run_keeps (I := fun e => ∀ f, e.handler = .download f → f.batchFileEntities = [])
    (fun e ev e' _ _ hst f hk => ?_) (fun f hk => by cases hk) System.guarded_free h f hk
  obtain ⟨c, store, handler, -, -, -, hr, rfl⟩ := step_eq hst
  obtain rfl : handler = .download f := hk
  exact (Handler.resume_next hr).at_download

/-- A run that goes on has not ended. -/
theorem not_ended (h : (executions sha256).step e ev = some e') : e.handler.isEnded = false := by
  obtain ⟨c, -, -, -, hc, -⟩ := step_eq h
  exact Handler.isEnded_of_call hc

/-- The store after an answer. -/
theorem store_answered (hst : (executions sha256).step e ev = some e') {a : Answer}
    (ha : ev.reply = .done a) {call : Call} (hc : e.handler.call e.command = some call) :
    e.store.permits call a = true ∧ e.store.apply e.command.taskId call = some e'.store := by
  obtain ⟨c, store, handler, -, hcall, hs, -, rfl⟩ := step_eq hst
  rw [hc] at hcall; cases hcall
  rw [ha] at hs
  exact Store.serve_done hs

/-- The store after an exception: the one before, or the effect of the call. -/
theorem store_failed (hst : (executions sha256).step e ev = some e')
    (hf : ev.reply.failed = true) {call : Call} (hc : e.handler.call e.command = some call) :
    (∃ x, ev.reply = .refused x ∧ e'.store = e.store) ∨
      ∃ x, ev.reply = .lost x ∧ e.store.apply e.command.taskId call = some e'.store := by
  obtain ⟨c, store, handler, -, hcall, hs, -, rfl⟩ := step_eq hst
  rw [hc] at hcall; cases hcall
  cases hr : ev.reply with
  | done a => rw [hr] at hf; cases hf
  | refused x => rw [hr] at hs; cases hs; exact .inl ⟨x, rfl, rfl⟩
  | lost x => rw [hr] at hs; exact .inr ⟨x, rfl, hs⟩

/-- An answer that the code accepts. -/
theorem step_of_answer {a : Answer} {call : Call} {store : Store} {h : Handler}
    (hc : e.handler.call e.command = some call) (hp : e.store.permits call a = true)
    (ha : e.store.apply e.command.taskId call = some store)
    (hr : e.handler.resume sha256 e.now (.ok a) = some h) :
    ∃ e', (executions sha256).step e ⟨0, .done a⟩ = some e' := by
  refine ⟨{ e with
    now := e.now + 0, store := store, handler := h, calls := e.calls ++ [(call, .done a)] }, ?_⟩
  show step sha256 e ⟨0, .done a⟩ = some _
  simp only [step, Rat.le_refl, ↓reduceIte, hc, Store.serve, hp, ha, add_zero, Reply.seen, hr,
    Option.bind_eq_bind, Option.bind_some]

/-- Every awaited call but the one that adds rows may be answered. -/
theorem exists_step (sha256 : Bytes → Digest) (hne : e.handler.isEnded = false)
    (hrec : e.handler.recording = false) :
    ∃ a e', (executions sha256).step e ⟨0, .done a⟩ = some e' := by
  obtain ⟨command, now, store, handler, calls⟩ := e
  cases handler with
  | getTask =>
    refine ⟨.task (store.tasks.getById command.taskId), ?_⟩
    cases ht : store.tasks.getById command.taskId with
    | none => exact step_of_answer rfl (by simp [Store.permits, ht]) rfl rfl
    | some t => exact step_of_answer rfl (by simp [Store.permits, ht]) rfl rfl
  | names f => exact ⟨.names [], step_of_answer rfl rfl rfl rfl⟩
  | download f => exact ⟨.archive [], step_of_answer rfl rfl rfl rfl⟩
  | extract f rest =>
    cases rest with
    | nil => exact ⟨.next, step_of_answer rfl rfl rfl rfl⟩
    | cons extracted rest => exact ⟨.next, step_of_answer rfl rfl rfl rfl⟩
  | checkExists f extracted rest =>
    refine ⟨.found (store.downloaded.exists_ f.task.id extracted.filename), ?_⟩
    cases hx : store.downloaded.exists_ f.task.id extracted.filename with
    | false => exact step_of_answer rfl (by simp [Store.permits, hx]) rfl rfl
    | true => exact step_of_answer rfl (by simp [Store.permits, hx]) rfl rfl
  | upload f extracted rest => exact ⟨.stored 0, step_of_answer rfl rfl rfl rfl⟩
  | record => cases hrec
  | ended => cases hne
  | _ => exact ⟨.done, step_of_answer rfl rfl rfl rfl⟩

/-! ## The run as a part of the system -/

/-- The process `pid` of the world is in this run. -/
structure Shows (w : World) (pid : Pid) (e : Execution) (k : Worker) : Prop where
  proc : w.procs pid = .handling { k with handler := e.handler }
  message : k.message = e.command
  now : w.now = e.now
  store : w.store = e.store

/-- The two steps of an event. -/
def labels (pid : Pid) (ev : Event) : List Label := [.tick ev.elapsed, .call pid ev.reply]

theorem step_in_world {w : World} {pid : Pid} {k : Worker} (hw : Shows w pid e k)
    (h : (executions sha256).step e ev = some e') :
    ∃ w', (system sha256).run w (labels pid ev) = some w' ∧ Shows w' pid e' k := by
  obtain ⟨c, store, handler, ht, hc, hs, hr, rfl⟩ := step_eq h
  obtain ⟨hp, hm, hn, hst⟩ := hw
  refine ⟨({ w with now := w.now + ev.elapsed, store := store }.setProc pid
    (.handling { k with handler := handler })), ?_, ⟨by simp, hm, by simp [hn], rfl⟩⟩
  simp [System.run_cons, labels, system, World.step, ht, World.call, hp, hm, hc, hst, hs, hn, hr]

/-- **A run of `execute` is a run of the system** in which nothing else happens. -/
theorem run_in_world {w : World} {pid : Pid} {k : Worker} {evs : List Event}
    (hw : Shows w pid e k) (h : (executions sha256).run e evs = some e') :
    ∃ w', (system sha256).run w (evs.flatMap (labels pid)) = some w' ∧ Shows w' pid e' k := by
  induction evs generalizing e w with
  | nil => cases h; exact ⟨w, rfl, hw⟩
  | cons ev evs ih =>
    obtain ⟨d, hd, h⟩ := System.run_cons_eq_some.mp h
    obtain ⟨w₁, h₁, hw₁⟩ := step_in_world hw hd
    obtain ⟨w', h', hw'⟩ := ih hw₁ h
    exact ⟨w', by rw [List.flatMap_cons, System.run_append, h₁]; exact h', hw'⟩

/-- A handler that has just been called is at the start of a run. -/
theorem shows_start {w : World} {pid : Pid} {k : Worker} (hp : w.procs pid = .handling k)
    (hk : k.handler = .getTask) : Shows w pid (start k.message w.now w.store) k := by
  obtain ⟨message, workerId, handler, lost⟩ := k
  cases hk
  exact ⟨hp, rfl, rfl, rfl⟩

/-! ## The stored task and the copy -/

end Execution

theorem TaskTable.getById_update {tasks : TaskTable} {id : TaskId} {s t : DownloadTask}
    (hs : tasks.getById id = some s) (hid : t.id = id) (hc : t.candidateId = s.candidateId) :
    (tasks.update t).getById id = some t := by
  obtain ⟨m, hm, rfl⟩ := Option.map_eq_some_iff.mp hs
  have hk : m.id = t.id := (Table.get?_eq_some.mp hm).2.trans hid.symm
  have hassign : (m.assign t).toDomain = { t with id := m.id, candidateId := m.candidateId } := rfl
  have hc' : m.candidateId = t.candidateId := hc.symm
  rw [getById, get?_update, hm, Option.map_some, if_pos hk, Option.map_some, hassign, hk, hc']

namespace Execution

variable {sha256 : Bytes → Digest} {e e' : Execution} {ev : Event} {c : String}

/-- A run on a row that it has found `RUNNING`, of the candidate `c`. -/
structure Sound (c : String) (e : Execution) : Prop where
  stored : ∃ s, e.stored = some s ∧ s.candidateId = c
  row : e.handler.isEnded = false → ∃ s, e.stored = some s ∧ s.status = .running
  names : ∀ f, e.handler = .names f → f.task.status = .running
  held : e.handler.Held fun _ t => t.id = e.command.taskId ∧ t.candidateId = c
  keyed : e.handler.Keyed

theorem sound_start {command : ProcessFilesCommand} {now : Time} {store : Store} {s : DownloadTask}
    (hs : store.tasks.getById command.taskId = some s) (hr : s.status = .running) :
    Sound s.candidateId (start command now store) where
  stored := ⟨s, hs, rfl⟩
  row _ := ⟨s, hs, hr⟩
  names _ h := by cases h
  held := trivial
  keyed file h := by
    rcases h with h | ⟨f, fileHash, rest, h⟩
    · cases h
    · cases h

/-- A call that is no write of the task leaves the stored one. -/
theorem stored_kept (hst : (executions sha256).step e ev = some e')
    (hc : ∀ t, e.handler.call e.command ≠ some (.updateTask t)) : e'.stored = e.stored := by
  obtain ⟨c, store, handler, -, hcall, hs, -, rfl⟩ := step_eq hst
  rcases Store.serve_tasks hs with ht | ⟨t, rfl, -⟩
  · show store.tasks.getById e.command.taskId = _
    rw [ht]; rfl
  · exact absurd hcall (hc t)

/-- So does a call without an effect. -/
theorem stored_refused (hst : (executions sha256).step e ev = some e') {x : Exn}
    (hr : ev.reply = .refused x) : e'.stored = e.stored := by
  obtain ⟨c, store, handler, -, -, hs, -, rfl⟩ := step_eq hst
  rw [hr] at hs
  cases hs; rfl

namespace Sound

variable (h : Sound c e)
include h

/-- A write is one of the copy. -/
theorem copy {t : DownloadTask} (hc : e.handler.call e.command = some (.updateTask t)) :
    t.id = e.command.taskId ∧ t.candidateId = c :=
  (h.held.stored (.candidate fun id candidateId => id = e.command.taskId ∧ candidateId = c) hc).1

/-- **A write that takes effect** makes the stored task the copy. -/
theorem written (hst : (executions sha256).step e ev = some e') {t : DownloadTask}
    (hc : e.handler.call e.command = some (.updateTask t)) (hr : ∀ x, ev.reply ≠ .refused x) :
    e'.stored = some t := by
  obtain ⟨c', store, handler, -, hcall, hs, -, rfl⟩ := step_eq hst
  obtain ⟨s, hstored, hcand⟩ := h.stored
  obtain ⟨hid, htc⟩ := h.copy hc
  rw [hc] at hcall; cases hcall
  rcases Store.serve_cases hs with ⟨-, x, hx⟩ | ha
  · exact absurd hx (hr x)
  · cases ha
    exact TaskTable.getById_update hstored hid (htc.trans hcand.symm)

/-- The stored task after an event: the one before, or the copy. -/
theorem stored_step (hst : (executions sha256).step e ev = some e') : e'.stored = e.stored ∨
    ∃ t, e.handler.call e.command = some (.updateTask t) ∧ e'.stored = some t := by
  by_cases hu : ∃ t, e.handler.call e.command = some (.updateTask t)
  · obtain ⟨t, hc⟩ := hu
    cases hr : ev.reply with
    | refused x => exact .inl (stored_refused hst hr)
    | done a => exact .inr ⟨t, hc, h.written hst hc (by simp [hr])⟩
    | lost x => exact .inr ⟨t, hc, h.written hst hc (by simp [hr])⟩
  · exact .inl (stored_kept hst fun t hc => hu ⟨t, hc⟩)

/-- The copy is the task of the command. -/
theorem taskId {f : Frame} (hf : e.handler.frame = some f) : f.task.id = e.command.taskId := by
  obtain ⟨n, hid, -⟩ := h.held.of_frame hf
  exact hid

/-- The rows of a file are added for this task. -/
theorem call_record {f : Frame} {file : File} {fileHash : FileHash} {rest : List ExtractedFile}
    (hk : e.handler = .record f file fileHash rest) :
    e.handler.call e.command = some (.addFile e.command.taskId file fileHash) := by
  rw [← h.taskId (f := f) (by rw [hk]; rfl), hk]; rfl

/-- The existence check asks for a record of this task. -/
theorem found (hst : (executions sha256).step e ev = some e') {f : Frame}
    {extracted : ExtractedFile} {rest : List ExtractedFile} {b : Bool}
    (hk : e.handler = .checkExists f extracted rest) (hr : ev.reply = .done (.found b)) :
    b = e.store.downloaded.exists_ e.command.taskId extracted.filename ∧ e'.store = e.store := by
  have hcall : e.handler.call e.command =
      some (.downloadedFileExists e.command.taskId extracted.filename) := by
    rw [← h.taskId (f := f) (by rw [hk]; rfl), hk]; rfl
  obtain ⟨hperm, happly⟩ := store_answered hst hr hcall
  exact ⟨of_decide_eq_true hperm, (Option.some.inj happly).symm⟩

theorem running : e.handler.Running := by
  intro f hf
  have hn := h.names
  have hh := h.held
  cases hk : e.handler with
  | names f' => rw [hk] at hf; cases hf; exact hn _ hk
  | getTask | ended | storeBlocked | storeSuccess | storeFailed => rw [hk] at hf; cases hf
  | _ => rw [hk] at hf hh; cases hf; exact hh.1

/-- The first call reads the stored task. -/
theorem reads (hst : (executions sha256).step e ev = some e') {t : Option DownloadTask}
    (ht : ev.reply = .done (.task t)) :
    e.handler = .getTask ∧ t = e.stored ∧ ∃ s, e.stored = some s ∧ s.status = .running := by
  obtain ⟨c', store, handler, -, hcall, hs, hr, rfl⟩ := step_eq hst
  rw [ht] at hs hr
  have hk : e.handler = .getTask := Handler.resume_task hr
  rw [hk] at hcall; cases hcall
  exact ⟨hk, Store.serve_getById hs, h.row (by rw [hk]; rfl)⟩

/-- After a last write the run is over, whatever the reply. -/
theorem ends (hst : (executions sha256).step e ev = some e') {f : Frame}
    (hh : e.handler = .storeBlocked f ∨ e.handler = .storeSuccess f ∨
      e.handler = .storeFailed f) :
    e'.handler.isEnded = true ∧ e.handler.call e.command = some (.updateTask f.task) ∧
      f.task.status ≠ .running := by
  have hheld := h.held
  have hcall : e.handler.call e.command = some (.updateTask f.task) := by
    rcases hh with hh | hh | hh <;> rw [hh] <;> rfl
  have hstatus : f.task.status ≠ .running := by
    rcases hh with hh | hh | hh <;> rw [hh] at hheld <;> rw [hheld.1] <;> decide
  obtain ⟨c', store, handler, -, -, -, hres, rfl⟩ := step_eq hst
  exact ⟨hheld.ends hcall hstatus hres, hcall, hstatus⟩

/-- Before the last writes the copy that is written is `RUNNING`. -/
theorem stays_running (hst : (executions sha256).step e ev = some e') {f : Frame}
    (hf : e.handler.frame = some f) : ∃ s, e'.stored = some s ∧ s.status = .running := by
  rcases h.stored_step hst with hs' | ⟨t, hc, hs'⟩
  · rw [hs']; exact h.row (not_ended hst)
  · exact ⟨t, hs', by rw [Handler.call_frame hc hf]; exact h.running f hf⟩

/-- **Every event keeps it.** -/
theorem step (hst : (executions sha256).step e ev = some e') : Sound c e' := by
  have hstored : ∃ s, e'.stored = some s ∧ s.candidateId = c := by
    rcases h.stored_step hst with hs | ⟨t, hc, hs⟩
    · rw [hs]; exact h.stored
    · exact ⟨t, hs, (h.copy hc).2⟩
  have hread : ∀ t, ev.reply.seen = .ok (.task (some t)) → e.stored = some t ∧
      t.status = .running := by
    intro t hseen
    obtain ⟨-, hts, s, hs, hrun⟩ := h.reads hst (Reply.of_seen hseen)
    rw [hs] at hts; cases hts
    exact ⟨hs, hrun⟩
  have hrow : e'.handler.isEnded = false → ∃ s, e'.stored = some s ∧ s.status = .running := by
    intro he
    rcases e.handler.frame_cases (not_ended hst) with hk | ⟨f, hf⟩ | ⟨f, hh⟩
    · rw [stored_kept hst fun t hc => by rw [hk] at hc; cases hc]
      exact h.row (not_ended hst)
    · exact h.stays_running hst hf
    · rw [(h.ends hst hh).1] at he; cases he
  obtain ⟨c', store, handler, ht, hcall, hs, hr, rfl⟩ := step_eq hst
  have hnext := Handler.resume_next hr
  refine ⟨hstored, hrow, fun f hk => ?_, ?_, fun file hfile => ?_⟩
  · obtain rfl : handler = .names f := hk
    rcases hnext.at_names with ⟨task, ha, rfl⟩ | hp
    · exact (hread task ha).2
    · have hh := h.held
      rw [hp] at hh
      exact hh.1
  · refine h.held.resume
      (.candidate fun id candidateId => id = e.command.taskId ∧ candidateId = c)
      (fun t hseen => ?_) _ hr
    obtain ⟨s, hs, hcand⟩ := h.stored
    have ht := (hread t hseen).1
    obtain ⟨m, hm, hmt⟩ := Option.map_eq_some_iff.mp ht
    rw [hs] at ht; cases ht
    exact ⟨by rw [← hmt]; exact (Table.get?_eq_some.mp hm).2, hcand⟩
  · rcases hfile with hfile | ⟨f, fileHash, rest, hk⟩
    · rcases List.mem_append.mp (hnext.batchFiles.subset hfile) with hm | hm
      · exact h.keyed file (.inl hm)
      · exact h.keyed file (.inr (Handler.mem_recorded hm))
    · obtain rfl : handler = .record f file fileHash rest := hk
      obtain ⟨extracted, fileId, -, -, rfl, -⟩ := hnext.record
      rfl

/-- The code after an answer. -/
theorem answered (hst : (executions sha256).step e ev = some e') {a : Answer}
    (hr : ev.reply = .done a) :
    Handler.Answered sha256 (e.now + ev.elapsed) e.handler a e'.handler := by
  obtain ⟨c', store, handler, -, -, -, hres, rfl⟩ := step_eq hst
  rw [hr] at hres
  exact Handler.resume_answered h.running h.keyed hres

/-- The code after an exception. -/
theorem failed (hst : (executions sha256).step e ev = some e') {x : Exn}
    (hr : ev.reply.seen = .error x) :
    Handler.Failed (e.now + ev.elapsed) e.handler x e'.handler := by
  obtain ⟨c', store, handler, -, -, -, hres, rfl⟩ := step_eq hst
  rw [hr] at hres
  exact Handler.resume_failed h.running h.keyed hres

/-- How the run ends. -/
theorem ended (hst : (executions sha256).step e ev = some e') (he : e'.handler.isEnded = true) :
    e.handler = .getTask ∨
      (∃ f, e.handler = .storeBlocked f ∨ e.handler = .storeSuccess f ∨
        e.handler = .storeFailed f) ∨
      ∃ r, e.handler.blockOf ev.reply.seen = some r ∧ 60 < r ∧
        addSeconds (e.now + ev.elapsed) r = none := by
  obtain ⟨c', store, handler, -, -, -, hres, rfl⟩ := step_eq hst
  exact Handler.ended_cases h.running h.keyed hres he

/-- The block that is handled. -/
theorem blocked (hst : (executions sha256).step e ev = some e') {r : Int}
    (hb : e.handler.blockOf ev.reply.seen = some r) :
    ∃ f, Handler.Ending (e.now + ev.elapsed) f (.blocked r) e'.handler := by
  obtain ⟨c', store, handler, -, -, -, hres, rfl⟩ := step_eq hst
  exact Handler.ending_blockOf h.running h.keyed hres hb

end Sound

/-- **Every run on a `RUNNING` row** is sound. -/
theorem sound_run {command : ProcessFilesCommand} {now : Time} {store : Store} {s : DownloadTask}
    (hs : store.tasks.getById command.taskId = some s) (hr : s.status = .running)
    {evs : List Event} (hrun : (executions sha256).run (start command now store) evs = some e) :
    Sound s.candidateId e :=
  System.run_keeps (fun _ _ _ h _ hst => h.step hst) (sound_start hs hr) System.guarded_free hrun

/-- The blocks that the run handles end within the range of `datetime`. -/
def BlockFits (e : Execution) (ev : Event) : Prop :=
  ∀ r, e.handler.blockOf ev.reply.seen = some r → 60 < r →
    (addSeconds (e.now + ev.elapsed) r).isSome

end Execution

end FileExtractor

import FileExtractor.Worker.Steps

/-!
# `update` in two statements

`SQLAlchemyTaskRepository.update` reads the row (`session.get`, a `SELECT`) and assigns the copy to
its attributes; the commit of the block then runs an `UPDATE` of the columns whose value differs
from the one that was read. `World.step` takes both as one step. Here they are two steps, under
`READ COMMITTED`: other transactions commit in between, and the `UPDATE` acts on the version of the
row that it finds. All other steps are those of the system.
-/

namespace FileExtractor

open Rel Lts World

/-- A column: the value of the copy if it differs from the one that was read. -/
def setChanged {α : Type} [DecidableEq α] (read new current : α) : α :=
  if new = read then current else new

/-- The `UPDATE` of an object that was read as `read`, after the assignments of `update`. -/
def DownloadTaskModel.flush (read : DownloadTaskModel) (t : DownloadTask)
    (m : DownloadTaskModel) : DownloadTaskModel :=
  { m with
    status := setChanged read.status t.status m.status
    receivedFiles := setChanged read.receivedFiles t.receivedFiles m.receivedFiles
    processedFiles := setChanged read.processedFiles t.processedFiles m.processedFiles
    error := setChanged read.error t.error m.error
    startedAt := setChanged read.startedAt t.startedAt m.startedAt
    finishedAt := setChanged read.finishedAt t.finishedAt m.finishedAt
    workerId := setChanged read.workerId t.workerId m.workerId
    lastHeartbeat := setChanged read.lastHeartbeat t.lastHeartbeat m.lastHeartbeat
    attempts := setChanged read.attempts t.attempts m.attempts
    blockedUntil := setChanged read.blockedUntil t.blockedUntil m.blockedUntil
    blockReason := setChanged read.blockReason t.blockReason m.blockReason }

@[simp] theorem DownloadTaskModel.flush_id (read : DownloadTaskModel) (t : DownloadTask)
    (m : DownloadTaskModel) : (read.flush t m).id = m.id := rfl

/-- The commit of `update`; it has returned at once where it has read no row. -/
def TaskTable.flush (tasks : TaskTable) (read : Option DownloadTaskModel) (t : DownloadTask) :
    TaskTable :=
  match read with
  | none => tasks
  | some r => tasks.modify (fun m => m.id = t.id) (r.flush t) (r.flush_id t)

/-- The task whose `update` the process awaits. -/
def World.updating (w : World) (pid : Pid) : Option DownloadTask :=
  match w.procs pid with
  | .handling k =>
    match k.handler.call k.message with
    | some (.updateTask t) => some t
    | _ => none
  | _ => none

structure SplitWorld where
  world : World
  /-- What `update` has read, between its two statements. -/
  read : Pid → Option (Option DownloadTaskModel)

inductive SplitLabel where
  | select (pid : Pid)
  | step (l : Label)

/-- The label of the system. -/
def SplitLabel.label : SplitLabel → Option Label
  | .select _ => none
  | .step l => some l

namespace SplitWorld

section Step

variable (sha256 : Bytes → Digest)

/-- The `SELECT` of `update`. -/
def select (s : SplitWorld) (pid : Pid) : Option SplitWorld := do
  let t ← s.world.updating pid
  if s.read pid = none then
    some { s with read := Function.update s.read pid (some (s.world.store.tasks.get? t.id)) }
  else none

/-- The tasks after the end of `update`; a transaction that is rolled back has left them. -/
def written (s : SplitWorld) (pid : Pid) (t : DownloadTask) : Reply → Option TaskTable
  | .refused _ => some s.world.store.tasks
  | .done _ | .lost _ => (s.read pid).map fun r => s.world.store.tasks.flush r t

/-- The end of `update`: its commit, or an exception before or after it. -/
def commit (s : SplitWorld) (pid : Pid) (t : DownloadTask) (reply : Reply) : Option SplitWorld :=
  match s.world.procs pid with
  | .handling k => do
    let tasks ← s.written pid t reply
    let handler ← k.handler.resume sha256 s.world.now reply.seen
    some {
      world := (s.world.setTasks tasks).setProc pid (.handling { k with handler := handler })
      read := Function.update s.read pid none }
  | _ => none

/-- A process that dies leaves no transaction. -/
def readAfter (s : SplitWorld) : Label → Pid → Option (Option DownloadTaskModel)
  | .crash pid => Function.update s.read pid none
  | _ => s.read

/-- The other steps. -/
def other (s : SplitWorld) (l : Label) : Option SplitWorld :=
  (s.world.step sha256 l).map fun w => { world := w, read := s.readAfter l }

def step (s : SplitWorld) : SplitLabel → Option SplitWorld
  | .select pid => s.select pid
  | .step (.call pid reply) =>
    match s.world.updating pid with
    | some t => s.commit sha256 pid t reply
    | none => s.other sha256 (.call pid reply)
  | .step l => s.other sha256 l

/-- The system with the two statements. -/
def split : System SplitWorld SplitLabel where
  init s := (∃ now bucket, s.world = fresh now bucket) ∧ s.read = fun _ => none
  step := step sha256

end Step

end SplitWorld

end FileExtractor

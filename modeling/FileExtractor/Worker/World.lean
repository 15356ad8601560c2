import FileExtractor.Lib.System
import FileExtractor.Application.ProcessFiles
import Mathlib.Logic.Function.Basic

/-!
# The whole system

The stores, the queue and the processes, and what one step of any process does.

* `Store`: the three tables and the bucket, with two ghost fields that no code reads: `owner`, the
  task whose handler stored a `File` row, and `marked`, the names that the external API has
  recorded as downloaded, with the task of the run that asked for it.
* A call of a handler gives a `Reply`: its answer, an exception before it had an effect
  (`refused`), or an exception after its effect (`lost`: the effect is there, the caller sees an
  error). `Store.serve` is the store after the reply. A violated `UNIQUE` or primary key leaves
  only `refused`.
* `Proc`: what a process does. `sending` is `StartDownloadHandler.execute` or a watchdog task
  between its commit and its last `send_task`; `received`, `handling` and `returned` are
  `process_files_task` before its `claim`, in `ProcessFilesHandler.execute`, and after its return
  before the broker removes the message.
* `World.step`: one label is one step of one process, or a step of the environment (the clock,
  the broker, a crash). The message of a process that dies goes back to the queue. Each call of a
  repository is one step; `SplitWorld` has the two statements of `update` as two, `StatementWorld`
  also the two parts of a reclaim.

The ghosts of a `Worker` and of the `World`: `lost`, set when `reclaim_stuck` takes the task of the
worker away; `claims`, the number of successful claims of a task; `sent`, the messages ever sent.
-/

namespace FileExtractor

open Rel

/-! ## The stores -/

structure Store where
  tasks : TaskTable
  files : FileTable
  downloaded : DownloadedTable
  bucket : String → Option Bytes
  owner : FileId → Option TaskId
  marked : List (TaskId × String)

inductive Reply where
  | done (answer : Answer)
  | refused (e : Exn)
  | lost (e : Exn)

/-- What the handler sees of a reply. -/
def Reply.seen : Reply → Except Exn Answer
  | .done answer => .ok answer
  | .refused e => .error e
  | .lost e => .error e

namespace Store

def empty (bucket : String → Option Bytes) : Store where
  tasks := .empty
  files := .empty
  downloaded := .empty
  bucket := bucket
  owner := fun _ => none
  marked := []

/-- The effect of a call of the handler of `taskId`; `none` if a key forbids it. The lengths of the
columns are left out: a text that is longer than its column leaves only `refused`. -/
def apply (taskId : TaskId) (s : Store) : Call → Option Store
  | .updateTask task => some { s with tasks := s.tasks.update task }
  | .uploadStream key content =>
    some { s with bucket := Function.update s.bucket key (some content) }
  | .addFile tid file fileHash => do
    let files ← s.files.add file
    let downloaded ← s.downloaded.record tid file.filename fileHash
    some { s with
      files := files
      downloaded := downloaded
      owner := Function.update s.owner file.id (some tid) }
  | .markDownloaded batch _ => some { s with marked := s.marked ++ batch.map fun n => (taskId, n) }
  | .deleteObject key => some { s with bucket := Function.update s.bucket key none }
  | .deleteFile tid file =>
    some { s with
      files := s.files.deleteById file.id
      downloaded := s.downloaded.deleteRecord tid file.filename }
  | .getById _ => some s
  | .getFileNames _ => some s
  | .downloadStream _ => some s
  | .nextEntry => some s
  | .downloadedFileExists _ _ => some s

/-- The answers of the database are read from the tables. -/
def permits (s : Store) : Call → Answer → Bool
  | .getById taskId, .task task => task = s.tasks.getById taskId
  | .downloadedFileExists taskId filename, .found found =>
    found = s.downloaded.exists_ taskId filename
  | _, _ => true

/-- The store after a call that gives the reply. -/
def serve (taskId : TaskId) (s : Store) (c : Call) : Reply → Option Store
  | .done answer => if s.permits c answer then s.apply taskId c else none
  | .refused _ => some s
  | .lost _ => s.apply taskId c

end Store

/-! ## The processes -/

/-- The arguments of a `process_files_task` message. -/
abbrev Message := ProcessFilesCommand

abbrev Pid := Nat

/-- `process_files_task` in `ProcessFilesHandler.execute`. -/
structure Worker where
  message : Message
  workerId : String
  handler : Handler
  lost : Bool

inductive Proc where
  | idle
  | sending (todo : List Message)
  | received (m : Message) (workerId : String)
  | handling (k : Worker)
  | returned (m : Message)

namespace Proc

/-- The message that the process has taken and not acknowledged. -/
def message : Proc → Option Message
  | .received m _ => some m
  | .handling k => some k.message
  | .returned m => some m
  | _ => none

/-- A process with these messages left to send. -/
def sendAll (todo : List Message) : Proc := if todo = [] then .idle else .sending todo

/-- `reclaim_stuck` has taken the tasks of the ids away from their workers. -/
def release (ids : List TaskId) : Proc → Proc
  | .handling k => .handling { k with lost := k.lost || ids.contains k.message.taskId }
  | p => p

end Proc

structure World where
  now : Time
  store : Store
  queue : List Message
  sent : List Message
  claims : TaskId → Nat
  procs : Pid → Proc

/-- How a transaction of a process ends: its effect with or without the acknowledgement, or none. -/
inductive Fate where
  | done | refused | lost
  deriving DecidableEq

inductive Label where
  | tick (d : Time)
  | start (pid : Pid) (taskId : TaskId) (candidateId : Option String) (fate : Fate)
  | send (pid : Pid)
  | sendFails (pid : Pid)
  | redeliver (m : Message)
  | deliver (pid : Pid) (m : Message) (workerId : String)
  | claim (pid : Pid) (fate : Fate)
  | call (pid : Pid) (reply : Reply)
  | ack (pid : Pid)
  | reclaimStuck (pid : Pid) (ids : List TaskId) (fate : Fate)
  | reclaimBlocked (pid : Pid) (ids : List TaskId) (fate : Fate)
  | crash (pid : Pid)

/-- A transaction of an idle process that is rolled back. -/
def Label.isRefused : Label → Bool
  | .start _ _ _ .refused | .reclaimStuck _ _ .refused | .reclaimBlocked _ _ .refused => true
  | _ => false

namespace World

/-- `timedelta(minutes=5)` and `limit=20` of the watchdog. -/
def maxHeartbeatAge : Time := 300
def reclaimLimit : Nat := 20

/-- No task, no message, no process. -/
def fresh (now : Time) (bucket : String → Option Bytes) : World where
  now := now
  store := .empty bucket
  queue := []
  sent := []
  claims := fun _ => 0
  procs := fun _ => .idle

def setTasks (w : World) (tasks : TaskTable) : World :=
  { w with store := { w.store with tasks := tasks } }

def setProc (w : World) (pid : Pid) (p : Proc) : World :=
  { w with procs := Function.update w.procs pid p }

def release (w : World) (ids : List TaskId) : World :=
  { w with procs := fun pid => (w.procs pid).release ids }

/-- Put the unacknowledged message of a process back. -/
def requeue (w : World) (m : Option Message) : World := { w with queue := w.queue ++ m.toList }

/-- `_requeue_task(task.id, task.candidate_id or None)`. -/
def requeueMessage (t : DownloadTask) : Message where
  taskId := t.id
  candidateId := if t.candidateId = "" then none else some t.candidateId

/-- The process after a commit that leaves messages to send. -/
def afterCommit (w : World) (pid : Pid) (todo : List Message) (fate : Fate) : World :=
  { w with procs := if fate = .done then Function.update w.procs pid (.sendAll todo) else w.procs }

def isIdle (w : World) (pid : Pid) : Bool :=
  match w.procs pid with
  | .idle => true
  | _ => false

section Step

variable (sha256 : Bytes → Digest)

/-- `StartDownloadHandler.execute` up to its commit. -/
def start (w : World) (pid : Pid) (taskId : TaskId) (candidateId : Option String) (fate : Fate) :
    Option World :=
  if w.isIdle pid then
    match fate with
    | .refused => some w
    | fate => do
      let tasks ← w.store.tasks.add (.new taskId (candidateId.getD ""))
      some ((w.setTasks tasks).afterCommit pid [⟨taskId, candidateId⟩] fate)
  else none

/-- `send_task` of the first message. -/
def send (w : World) (pid : Pid) : Option World :=
  match w.procs pid with
  | .sending (m :: todo) =>
    some { w.setProc pid (.sendAll todo) with
      queue := w.queue ++ [m]
      sent := w.sent ++ [m] }
  | _ => none

/-- `send_task` raises: the rest of the messages is not sent. -/
def sendFails (w : World) (pid : Pid) : Option World :=
  match w.procs pid with
  | .sending _ => some (w.setProc pid .idle)
  | _ => none

/-- A worker takes a message from the queue. -/
def deliver (w : World) (pid : Pid) (m : Message) (workerId : String) : Option World :=
  if w.isIdle pid && w.queue.contains m then
    some { w.setProc pid (.received m workerId) with queue := w.queue.erase m }
  else none

/-- `repo.claim` and the commit after it. -/
def claim (w : World) (pid : Pid) (fate : Fate) : Option World :=
  match w.procs pid with
  | .received m workerId =>
    match fate, w.store.tasks.claim m.taskId workerId w.now with
    | .refused, _ => some (w.setProc pid (.returned m))
    | _, (_, none) => some (w.setProc pid (.returned m))
    | fate, (tasks, some _) =>
      let w := { w.setTasks tasks with
        claims := Function.update w.claims m.taskId (w.claims m.taskId + 1) }
      some (w.setProc pid (if fate = .done then .handling ⟨m, workerId, .getTask, false⟩
        else .returned m))
  | _ => none

/-- A call of a handler and the code up to the next one. -/
def call (w : World) (pid : Pid) (reply : Reply) : Option World :=
  match w.procs pid with
  | .handling k => do
    let c ← k.handler.call k.message
    let store ← w.store.serve k.message.taskId c reply
    let handler ← k.handler.resume sha256 w.now reply.seen
    some ({ w with store := store }.setProc pid (.handling { k with handler := handler }))
  | _ => none

/-- `process_files_task` has returned or raised, and the broker removes the message. -/
def ack (w : World) (pid : Pid) : Option World :=
  match w.procs pid with
  | .returned _ => some (w.setProc pid .idle)
  | .handling k => if k.handler.isEnded then some (w.setProc pid .idle) else none
  | _ => none

/-- `reclaim_stuck_tasks` up to its commit. -/
def reclaimStuck (w : World) (pid : Pid) (ids : List TaskId) (fate : Fate) : Option World :=
  if w.isIdle pid && w.store.tasks.selects
      (DownloadTaskModel.isStuck (w.now - maxHeartbeatAge)) reclaimLimit ids then
    match fate with
    | .refused => some w
    | fate =>
      let tasks := w.store.tasks.reclaimStuck ids
      some (((w.setTasks tasks).release ids).afterCommit pid
        ((tasks.returning ids).map requeueMessage) fate)
  else none

/-- `reclaim_blocked_tasks` up to its commit. -/
def reclaimBlocked (w : World) (pid : Pid) (ids : List TaskId) (fate : Fate) : Option World :=
  if w.isIdle pid && w.store.tasks.selects (DownloadTaskModel.isReleasable w.now) reclaimLimit ids
  then
    match fate with
    | .refused => some w
    | fate =>
      let tasks := w.store.tasks.reclaimBlocked ids
      some ((w.setTasks tasks).afterCommit pid ((tasks.returning ids).map requeueMessage) fate)
  else none

def step (w : World) : Label → Option World
  | .tick d => if 0 ≤ d then some { w with now := w.now + d } else none
  | .start pid taskId candidateId fate => w.start pid taskId candidateId fate
  | .send pid => w.send pid
  | .sendFails pid => w.sendFails pid
  | .redeliver m => if w.sent.contains m then some { w with queue := w.queue ++ [m] } else none
  | .deliver pid m workerId => w.deliver pid m workerId
  | .claim pid fate => w.claim pid fate
  | .call pid reply => w.call sha256 pid reply
  | .ack pid => w.ack pid
  | .reclaimStuck pid ids fate => w.reclaimStuck pid ids fate
  | .reclaimBlocked pid ids fate => w.reclaimBlocked pid ids fate
  | .crash pid => some ((w.requeue (w.procs pid).message).setProc pid .idle)

/-- All runs of the system from an empty database, at any time and with any bucket. -/
def system : Lts.System World Label where
  init w := ∃ now bucket, w = fresh now bucket
  step := step sha256

end Step

end World

end FileExtractor

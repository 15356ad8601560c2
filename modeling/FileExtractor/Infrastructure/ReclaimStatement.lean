import FileExtractor.Lib.System
import FileExtractor.Infrastructure.Database

/-!
# A reclaim statement under `READ COMMITTED`

The `UPDATE` of `reclaim_stuck` and `reclaim_blocked` in steps. Its sub-select reads the committed
rows of one moment. Then the outer `UPDATE` reaches the selected rows one after the other, and other
transactions commit in between (`Commit`): a row that has a new version is checked against the outer
`WHERE` again, which tests nothing but that its id is selected. A row that the `UPDATE` has reached
is locked, and a transaction that writes it waits.
-/

namespace FileExtractor

open Rel DownloadTaskModel

/-- The two statements, with the times that they are run with. -/
inductive Reclaim where
  /-- `reclaim_stuck`, `cutoff = now - max_heartbeat_age`. -/
  | stuck (cutoff : Time)
  | blocked (now : Time)

namespace Reclaim

/-- The `WHERE` of the sub-select, of the columns that it reads. -/
def tests (r : Reclaim) (status : TaskStatus) (lastHeartbeat blockedUntil : Option Time) : Bool :=
  match r with
  | .stuck cutoff => status = .running && lastHeartbeat.any (· < cutoff)
  | .blocked now => status = .blocked && blockedUntil.any (· < now)

def eligible (r : Reclaim) (m : DownloadTaskModel) : Bool :=
  r.tests m.status m.lastHeartbeat m.blockedUntil

/-- The values of the `UPDATE`. -/
def release : Reclaim → DownloadTaskModel → DownloadTaskModel
  | .stuck _ => releasedStuck
  | .blocked _ => releasedBlocked

/-- The same statement without an interruption. -/
def run : Reclaim → TaskTable → List TaskId → TaskTable
  | .stuck _, tasks, ids => tasks.reclaimStuck ids
  | .blocked _, tasks, ids => tasks.reclaimBlocked ids

theorem eligible_stuck (cutoff : Time) : (stuck cutoff).eligible = isStuck cutoff := rfl

theorem eligible_blocked (now : Time) : (blocked now).eligible = isReleasable now := rfl

@[simp] theorem release_id (r : Reclaim) (m : DownloadTaskModel) : (r.release m).id = m.id := by
  cases r <;> rfl

/-- What is tested is no row that waits for a worker. -/
theorem tests_pending (r : Reclaim) (lastHeartbeat blockedUntil : Option Time) :
    r.tests .pending lastHeartbeat blockedUntil = false := by
  cases r <;> rfl

end Reclaim

/-- What another transaction does to the tasks. -/
inductive Commit where
  | claim (taskId : TaskId) (workerId : String) (now : Time)
  /-- A handler writes its copy. -/
  | update (task : DownloadTask)
  | reclaimStuck (ids : List TaskId)
  | reclaimBlocked (ids : List TaskId)

namespace Commit

def apply (tasks : TaskTable) : Commit → TaskTable
  | .claim taskId workerId now => (tasks.claim taskId workerId now).1
  | .update task => tasks.update task
  | .reclaimStuck ids => tasks.reclaimStuck ids
  | .reclaimBlocked ids => tasks.reclaimBlocked ids

end Commit

/-- A reclaim statement between its sub-select and its end. -/
structure Reclaiming where
  reclaim : Reclaim
  tasks : TaskTable
  /-- The selected rows that are not reached. -/
  todo : List TaskId
  /-- The rows that are reached, and locked. -/
  locked : List TaskId

namespace Reclaiming

inductive Event where
  | commit (c : Commit)
  | reach (taskId : TaskId)

def step (s : Reclaiming) : Event → Option Reclaiming
  | .commit c =>
    if s.locked.all fun id => (c.apply s.tasks).get? id = s.tasks.get? id then
      some { s with tasks := c.apply s.tasks }
    else none
  | .reach taskId =>
    if s.todo.contains taskId then
      some { s with
        tasks := s.tasks.modify (fun m => m.id = taskId) s.reclaim.release s.reclaim.release_id
        todo := s.todo.erase taskId
        locked := s.locked ++ [taskId] }
    else none

/-- The statements on any table, behind their sub-selects. -/
def system : Lts.System Reclaiming Event where
  init s := (∃ limit, s.tasks.selects s.reclaim.eligible limit s.todo = true) ∧ s.locked = []
  step := step

end Reclaiming

end FileExtractor

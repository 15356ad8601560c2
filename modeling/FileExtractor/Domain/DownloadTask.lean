import FileExtractor.Lib.Objects
import FileExtractor.Domain.Errors

/-!
# The entity `DownloadTask`

`domain/entities/download_task.py`. A method that raises may have changed the object before
(`block` sets the status before it computes `blocked_until`), so a call gives the object in both
cases (`Called`). `now` is the value of `datetime.now(UTC)` in the call.

`*_returned` say when a call returns and what it leaves, and `*_raised` that it leaves the task as
it was when it raises; `block_raised` is the one call that raises after a change.
-/

namespace FileExtractor

/-- A task id: the text of a UUID. -/
abbrev TaskId := String

structure DownloadTask where
  id : TaskId
  candidateId : String
  status : TaskStatus
  receivedFiles : Int
  processedFiles : Int
  error : Option String
  startedAt : Option Time
  finishedAt : Option Time
  workerId : Option String
  lastHeartbeat : Option Time
  attempts : Int
  blockedUntil : Option Time
  blockReason : Option String
  deriving DecidableEq

namespace DownloadTask

/-- The constructor with its defaults. -/
def new (taskId : TaskId) (candidateId : String) : DownloadTask where
  id := taskId
  candidateId := candidateId
  status := .pending
  receivedFiles := 0
  processedFiles := 0
  error := none
  startedAt := none
  finishedAt := none
  workerId := none
  lastHeartbeat := none
  attempts := 0
  blockedUntil := none
  blockReason := none

/-- The guard of the methods that need a `RUNNING` task. -/
def whenRunning (t : DownloadTask) (f : DownloadTask → Called DownloadTask) :
    Called DownloadTask :=
  if t.status ≠ .running then .raised (.taskNotRunning t.id t.status.name) t else f t

def claim (workerId : String) (now : Time) (t : DownloadTask) : Called DownloadTask :=
  if t.status ≠ .pending then
    .raised (.invalidStatusTransition "DownloadTask" t.status.name TaskStatus.running.name) t
  else
    .returned { t with
      status := .running
      workerId := some workerId
      startedAt := some now
      lastHeartbeat := some now
      attempts := t.attempts + 1 }

def heartbeat (now : Time) (t : DownloadTask) : Called DownloadTask :=
  t.whenRunning fun t => .returned { t with lastHeartbeat := some now }

def increaseReceived (count : Int) (t : DownloadTask) : Called DownloadTask :=
  t.whenRunning fun t => .returned { t with receivedFiles := t.receivedFiles + count }

/-- No guard, unlike the other methods. -/
def decreaseReceived (count : Int) (t : DownloadTask) : DownloadTask :=
  { t with receivedFiles := max 0 (t.receivedFiles - count) }

def increaseProcessed (count : Int) (t : DownloadTask) : Called DownloadTask :=
  t.whenRunning fun t => .returned { t with processedFiles := t.processedFiles + count }

def complete (now : Time) (t : DownloadTask) : Called DownloadTask :=
  if t.status ≠ .running then
    .raised (.invalidStatusTransition "DownloadTask" t.status.name TaskStatus.success.name) t
  else .returned { t with status := .success, finishedAt := some now }

def fail (error : String) (now : Time) (t : DownloadTask) : Called DownloadTask :=
  if t.status = .pending ∨ t.status = .running then
    .returned { t with status := .failed, error := some error, finishedAt := some now }
  else
    .raised (.invalidStatusTransition "DownloadTask" t.status.name TaskStatus.failed.name) t

/-- The status is set first: when `blocked_until` overflows, the call raises and leaves the task
`BLOCKED`. -/
def block (retryAfterSeconds : Int) (reason : String) (now : Time) (t : DownloadTask) :
    Called DownloadTask :=
  t.whenRunning fun t =>
    match addSeconds now retryAfterSeconds with
    | none => .raised .overflow { t with status := .blocked }
    | some until_ => .returned { t with
        status := .blocked
        blockedUntil := some until_
        blockReason := some reason
        error := some (if reason = "" then "External API block"
          else "External API block: " ++ reason) }

def isBlocked (now : Time) (t : DownloadTask) : Bool :=
  t.status = .blocked && t.blockedUntil.all (now < ·)

variable {t t' : DownloadTask} {e : Exn} {n : Int} {now : Time} {s : String}

theorem whenRunning_of_running {f : DownloadTask → Called DownloadTask} (h : t.status = .running) :
    t.whenRunning f = f t := by
  simp [whenRunning, h]

theorem whenRunning_returned {f : DownloadTask → Called DownloadTask}
    (h : t.whenRunning f = .returned t') : t.status = .running ∧ f t = .returned t' := by
  unfold whenRunning at h
  split at h
  · cases h
  · next hs => exact ⟨by simpa using hs, h⟩

theorem heartbeat_returned (h : t.heartbeat now = .returned t') :
    t.status = .running ∧ t' = { t with lastHeartbeat := some now } := by
  obtain ⟨hs, hf⟩ := whenRunning_returned h
  cases hf; exact ⟨hs, rfl⟩

theorem increaseReceived_returned (h : t.increaseReceived n = .returned t') :
    t.status = .running ∧ t' = { t with receivedFiles := t.receivedFiles + n } := by
  obtain ⟨hs, hf⟩ := whenRunning_returned h
  cases hf; exact ⟨hs, rfl⟩

theorem increaseProcessed_returned (h : t.increaseProcessed n = .returned t') :
    t.status = .running ∧ t' = { t with processedFiles := t.processedFiles + n } := by
  obtain ⟨hs, hf⟩ := whenRunning_returned h
  cases hf; exact ⟨hs, rfl⟩

theorem increaseProcessed_of_running (h : t.status = .running) :
    t.increaseProcessed n = .returned { t with processedFiles := t.processedFiles + n } :=
  whenRunning_of_running h

theorem increaseReceived_of_running (h : t.status = .running) :
    t.increaseReceived n = .returned { t with receivedFiles := t.receivedFiles + n } :=
  whenRunning_of_running h

theorem complete_of_running (h : t.status = .running) :
    t.complete now = .returned { t with status := .success, finishedAt := some now } := by
  simp [complete, h]

theorem heartbeat_of_running (h : t.status = .running) :
    t.heartbeat now = .returned { t with lastHeartbeat := some now } :=
  whenRunning_of_running h

theorem complete_returned (h : t.complete now = .returned t') :
    t.status = .running ∧ t' = { t with status := .success, finishedAt := some now } := by
  unfold complete at h
  split at h
  · cases h
  · next hs => cases h; exact ⟨by simpa using hs, rfl⟩

theorem fail_returned (h : t.fail s now = .returned t') :
    (t.status = .pending ∨ t.status = .running) ∧
      t' = { t with status := .failed, error := some s, finishedAt := some now } := by
  unfold fail at h
  split at h
  · next hs => cases h; exact ⟨hs, rfl⟩
  · cases h

theorem block_returned (h : t.block n s now = .returned t') :
    t.status = .running ∧ ∃ until_ err, addSeconds now n = some until_ ∧ t' = { t with
      status := .blocked, blockedUntil := some until_, blockReason := some s,
      error := some err } := by
  obtain ⟨hs, hf⟩ := whenRunning_returned h
  split at hf
  · cases hf
  · next u hu => cases hf; exact ⟨hs, u, _, hu, rfl⟩

theorem whenRunning_raised {f : DownloadTask → Called DownloadTask}
    (hf : (f t).isRaised = false) (h : t.whenRunning f = .raised e t') : t' = t := by
  unfold whenRunning at h
  split at h
  · cases h; rfl
  · rw [h] at hf; cases hf

theorem increaseReceived_raised (h : t.increaseReceived n = .raised e t') : t' = t :=
  whenRunning_raised rfl h

theorem complete_raised (h : t.complete now = .raised e t') : t' = t := by
  unfold complete at h
  split at h
  · cases h; rfl
  · cases h

/-- A `block` of a running task that raises leaves it `BLOCKED`. -/
theorem block_raised (hs : t.status = .running) (h : t.block n s now = .raised e t') :
    t' = { t with status := .blocked } := by
  unfold block at h
  rw [whenRunning_of_running hs] at h
  split at h
  · cases h; rfl
  · cases h

/-- After a call that raises, a task that was not running is as before. -/
theorem block_raised_of_not_running (hs : t.status ≠ .running)
    (h : t.block n s now = .raised e t') : t' = t := by
  simp only [block, whenRunning, if_pos hs, Called.raised.injEq] at h
  exact h.2.symm

/-! ## Any method -/

/-- The calls that change a task, with their arguments and the times that they read. -/
inductive Method where
  /-- `claim` reads the clock twice. -/
  | claim (workerId : String) (startedAt lastHeartbeat : Time)
  | heartbeat (now : Time)
  | increaseReceived (count : Int)
  | decreaseReceived (count : Int)
  | increaseProcessed (count : Int)
  | complete (now : Time)
  | fail (error : String) (now : Time)
  | block (retryAfterSeconds : Int) (reason : String) (now : Time)

def call (t : DownloadTask) : Method → Called DownloadTask
  | .claim workerId startedAt lastHeartbeat =>
    match t.claim workerId startedAt with
    | .returned t => .returned { t with lastHeartbeat := some lastHeartbeat }
    | .raised e t => .raised e t
  | .heartbeat now => t.heartbeat now
  | .increaseReceived count => t.increaseReceived count
  | .decreaseReceived count => .returned (t.decreaseReceived count)
  | .increaseProcessed count => t.increaseProcessed count
  | .complete now => t.complete now
  | .fail error now => t.fail error now
  | .block retryAfterSeconds reason now => t.block retryAfterSeconds reason now

def methods : Objects.Methods DownloadTask Method where
  after t m := (t.call m).object
  raises t m := (t.call m).isRaised

end DownloadTask

end FileExtractor

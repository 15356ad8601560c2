import FileExtractor.Lib.System
import FileExtractor.Domain.DownloadTask

/-!
# The page with the download

`frontend/src/pages/DownloadPage.tsx` and the answer that it polls (`_task_to_response` in
`presentation/api/routes.py`). `startDownload` and the callback of its interval are closures: they
keep the `pollInterval` of the render in which `startDownload` was called. The browser keeps the
active intervals and the status requests that have no answer yet.

A state update and the effects of its render are one step. The table with the last tasks is not
modelled: nothing reads it back.
-/

namespace FileExtractor

open Lts

/-! ## The answer of the backend -/

/-- `DownloadTaskResponse`. -/
structure TaskStatusResponse where
  taskId : TaskId
  status : String
  receivedFiles : Int
  processedFiles : Int
  error : Option String
  startedAt : Option Time
  finishedAt : Option Time
  workerId : Option String
  attempts : Int
  blockedUntil : Option Time
  blockReason : Option String

/-- `_task_to_response`. -/
def taskToResponse (t : DownloadTask) : TaskStatusResponse where
  taskId := t.id
  status := t.status.name
  receivedFiles := t.receivedFiles
  processedFiles := t.processedFiles
  error := t.error
  startedAt := t.startedAt
  finishedAt := t.finishedAt
  workerId := t.workerId
  attempts := t.attempts
  blockedUntil := t.blockedUntil
  blockReason := t.blockReason

/-! ## The page -/

inductive DownloadStatus where
  | idle | running | blocked | completed | error
  deriving DecidableEq

structure DownloadPageState where
  status : DownloadStatus
  taskId : Option TaskId
  startedAt : Option Time
  receivedFiles : Int
  processedFiles : Int
  totalFiles : Int
  error : Option String
  blockedUntil : Option Time
  blockReason : Option String
  deriving DecidableEq

/-- What `setInterval` gives: a positive number, new each time. -/
abbrev Handle := Nat

/-- The closure of an interval: the task, and the `pollInterval` that its `clearPoll` has. -/
structure Poll where
  taskId : TaskId
  pollInterval : Option Handle
  deriving DecidableEq

structure DownloadPage where
  state : DownloadPageState
  pollInterval : Option Handle
  /-- The `pollInterval`s of the calls of `startDownload` that wait for the answer. -/
  starting : List (Option Handle)
  intervals : List (Handle × Poll)
  nextHandle : Handle
  /-- The status requests without an answer, and how many were sent. -/
  requests : List Poll
  issued : Nat
  deriving DecidableEq

namespace DownloadPage

/-- The argument of `useState`. -/
def initialState : DownloadPageState where
  status := .idle
  taskId := none
  startedAt := none
  receivedFiles := 0
  processedFiles := 0
  totalFiles := 0
  error := none
  blockedUntil := none
  blockReason := none

def initial : DownloadPage where
  state := initialState
  pollInterval := none
  starting := []
  intervals := []
  nextHandle := 1
  requests := []
  issued := 0

def clearInterval (handle : Handle) (p : DownloadPage) : DownloadPage :=
  { p with intervals := p.intervals.filter fun i => i.1 ≠ handle }

/-- `setPollInterval(value)` and the effects. A render with another value runs the cleanup of the
old effect, whose `clearPoll` clears the old interval and sets `null`; if that is a change again,
the interval of `value` is cleared in the same way. -/
def setPollInterval (value : Option Handle) (p : DownloadPage) : DownloadPage :=
  if p.pollInterval = value then p
  else
    match p.pollInterval, value with
    | none, value => { p with pollInterval := value }
    | some old, none => { p with pollInterval := none }.clearInterval old
    | some old, some new => ({ p with pollInterval := none }.clearInterval old).clearInterval new

/-- `clearPoll` of a render with `pollInterval`. -/
def clearPoll (pollInterval : Option Handle) (p : DownloadPage) : DownloadPage :=
  match pollInterval with
  | none => p
  | some handle => (p.clearInterval handle).setPollInterval none

/-- `startDownload` behind its `await`. -/
def started (pollInterval : Option Handle) (taskId : TaskId) (now : Time) (p : DownloadPage) :
    DownloadPage :=
  setPollInterval (some p.nextHandle) { p with
    state := { initialState with status := .running, taskId := some taskId, startedAt := some now }
    intervals := p.intervals ++ [(p.nextHandle, { taskId, pollInterval })]
    nextHandle := p.nextHandle + 1 }

/-- The status that the page shows for that of the task. -/
def statusOf (status : String) : DownloadStatus :=
  if status = "COMPLETED" then .completed
  else if status = "FAILED" then .error
  else if status = "BLOCKED" then .blocked
  else .running

/-- The callback of an interval behind its `await`. -/
def polled (poll : Poll) (task : TaskStatusResponse) (p : DownloadPage) : DownloadPage :=
  let p := { p with state := { p.state with
    receivedFiles := task.receivedFiles
    processedFiles := task.processedFiles
    totalFiles := task.receivedFiles
    status := statusOf task.status
    error := task.error.filter (· ≠ "")
    blockedUntil := task.blockedUntil
    blockReason := task.blockReason.filter (· ≠ "") } }
  if task.status = "COMPLETED" ∨ task.status = "FAILED" then p.clearPoll poll.pollInterval else p

/-- What happens to the page. -/
inductive Event where
  /-- The button of the idle page. -/
  | click
  /-- The answer to the call of `startDownload` number `n`. -/
  | started (n : Nat) (taskId : TaskId) (now : Time)
  | startFailed (n : Nat) (message : Option String)
  /-- An interval fires. -/
  | tick (handle : Handle)
  /-- The answer to the status request number `n`: the task as it is stored. -/
  | answered (n : Nat) (task : DownloadTask)
  | pollFailed (n : Nat)
  deriving DecidableEq

def step (p : DownloadPage) : Event → Option DownloadPage
  | .click =>
    if p.state.status = .idle then
      some { p.clearPoll p.pollInterval with starting := p.starting ++ [p.pollInterval] }
    else none
  | .started n taskId now => do
    let pollInterval ← p.starting[n]?
    return { p with starting := p.starting.eraseIdx n }.started pollInterval taskId now
  | .startFailed n message => do
    let _ ← p.starting[n]?
    return { p with
      starting := p.starting.eraseIdx n
      state := { p.state with
        status := .error
        error := some (message.getD "Ошибка запуска") } }
  | .tick handle => do
    let (_, poll) ← p.intervals.find? fun i => i.1 = handle
    return if poll.taskId = "" then p
      else { p with requests := p.requests ++ [poll], issued := p.issued + 1 }
  | .answered n task => do
    let poll ← p.requests[n]?
    return { p with requests := p.requests.eraseIdx n }.polled poll (taskToResponse task)
  | .pollFailed n => do
    let _ ← p.requests[n]?
    return { p with requests := p.requests.eraseIdx n }

def system : System DownloadPage Event where
  init p := p = initial
  step := step

/-- The steps, one rule for each event. -/
inductive Step (p : DownloadPage) : Event → DownloadPage → Prop
  | click : p.state.status = .idle →
      Step p .click { p.clearPoll p.pollInterval with starting := p.starting ++ [p.pollInterval] }
  | started {n pollInterval} (taskId : TaskId) (now : Time) : p.starting[n]? = some pollInterval →
      Step p (.started n taskId now)
        ({ p with starting := p.starting.eraseIdx n }.started pollInterval taskId now)
  | startFailed {n pollInterval} (message : Option String) : p.starting[n]? = some pollInterval →
      Step p (.startFailed n message) { p with
        starting := p.starting.eraseIdx n
        state := { p.state with
          status := .error
          error := some (message.getD "Ошибка запуска") } }
  | tick {handle poll} : (handle, poll) ∈ p.intervals → poll.taskId ≠ "" →
      Step p (.tick handle) { p with requests := p.requests ++ [poll], issued := p.issued + 1 }
  | tickEmpty {handle poll} : (handle, poll) ∈ p.intervals → poll.taskId = "" →
      Step p (.tick handle) p
  | answered {n poll} (task : DownloadTask) : p.requests[n]? = some poll →
      Step p (.answered n task)
        ({ p with requests := p.requests.eraseIdx n }.polled poll (taskToResponse task))
  | pollFailed {n poll} : p.requests[n]? = some poll →
      Step p (.pollFailed n) { p with requests := p.requests.eraseIdx n }

theorem Step.of_step {p p' : DownloadPage} {e : Event} (h : system.step p e = some p') :
    Step p e p' := by
  cases e with
  | click =>
    simp only [system, step] at h
    split at h
    · next hidle => cases h; exact .click hidle
    · cases h
  | started n taskId now =>
    obtain ⟨c, hc, h⟩ := Option.bind_eq_some_iff.mp h
    cases h; exact .started taskId now hc
  | startFailed n message =>
    obtain ⟨c, hc, h⟩ := Option.bind_eq_some_iff.mp h
    cases h; exact .startFailed message hc
  | tick handle =>
    obtain ⟨⟨handle', poll⟩, hi, h'⟩ := Option.bind_eq_some_iff.mp h
    have hmem := List.mem_of_find?_eq_some hi
    obtain rfl : handle' = handle := by simpa using List.find?_some hi
    dsimp only at h'
    split at h'
    · next hid => cases h'; exact .tickEmpty hmem hid
    · next hid => cases h'; exact .tick hmem hid
  | answered n task =>
    obtain ⟨poll, hr, h⟩ := Option.bind_eq_some_iff.mp h
    cases h; exact .answered task hr
  | pollFailed n =>
    obtain ⟨poll, hr, h⟩ := Option.bind_eq_some_iff.mp h
    cases h; exact .pollFailed hr

end DownloadPage

end FileExtractor

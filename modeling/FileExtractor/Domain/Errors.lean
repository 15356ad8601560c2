import Mathlib.Data.Rat.Defs

/-!
# Statuses, times and exceptions

The enumerations of `value_objects/statuses.py`, the times of the code and the exceptions that its
control flow depends on (`domain/exceptions.py`, `application/exceptions.py`).

A time is a number of seconds since the epoch. `datetime` has a first and a last value, and an
addition that leaves them raises `OverflowError` (`addSeconds`).
-/

namespace FileExtractor

inductive TaskStatus where
  | pending | running | success | failed | blocked
  deriving DecidableEq, Repr

/-- `TaskStatus.name`. -/
def TaskStatus.name : TaskStatus → String
  | .pending => "PENDING"
  | .running => "RUNNING"
  | .success => "SUCCESS"
  | .failed => "FAILED"
  | .blocked => "BLOCKED"

inductive FileStatus where
  | created | uploading | uploaded | failed
  deriving DecidableEq, Repr

/-- `FileStatus.name`. -/
def FileStatus.name : FileStatus → String
  | .created => "CREATED"
  | .uploading => "UPLOADING"
  | .uploaded => "UPLOADED"
  | .failed => "FAILED"

/-- Seconds since the epoch. -/
abbrev Time := ℚ

/-- `datetime.min` and `datetime.max` in UTC. -/
def datetimeMin : Time := -62135596800
def datetimeMax : Time := 253402300799 + 999999 / 1000000

/-- `now + timedelta(seconds=seconds)`; `none` is an `OverflowError`. A `timedelta` that is out of
range itself is longer than the range of `datetime`, so it is out of range here as well. -/
def addSeconds (now : Time) (seconds : Int) : Option Time :=
  if datetimeMin ≤ now + seconds ∧ now + seconds ≤ datetimeMax then some (now + seconds) else none

theorem addSeconds_eq_some {now u : Time} {seconds : Int} (h : addSeconds now seconds = some u) :
    u = now + seconds := by
  unfold addSeconds at h
  split at h
  · exact (Option.some.inj h).symm
  · cases h

/-- The exceptions. `other` is any `Exception` that no `except` clause names, with its text. -/
inductive Exn where
  | blocked (retryAfter : Int)
  | rateLimited (retryAfter : Int)
  | forbidden
  | notFound (detail : String)
  | serverError (message : String)
  | parseError (message : String)
  | invalidStatusTransition (entity fromStatus toStatus : String)
  | taskNotRunning (taskId status : String)
  | fileAlreadyUploaded (fileId : String)
  | overflow
  | other (message : String)
  deriving DecidableEq, Repr

/-- `str(e)`. -/
def Exn.str : Exn → String
  | .blocked r => "Blocked. Retry after " ++ toString r ++ "s"
  | .rateLimited r => "Rate limited. Retry after " ++ toString r ++ "s"
  | .forbidden => ""
  | .notFound detail => detail
  | .serverError message => message
  | .parseError message => message
  | .invalidStatusTransition entity fromStatus toStatus =>
    "Cannot transition " ++ entity ++ " from " ++ fromStatus ++ " to " ++ toStatus
  | .taskNotRunning taskId status =>
    "Download task " ++ taskId ++ " is in status " ++ status ++ ", expected RUNNING"
  | .fileAlreadyUploaded fileId => "File " ++ fileId ++ " is already uploaded"
  | .overflow => "date value out of range"
  | .other message => message

/-- What a method call leaves: the object after it and, if it raised, the exception. -/
inductive Called (α : Type) where
  | returned (a : α)
  | raised (e : Exn) (a : α)
  deriving DecidableEq, Repr

/-- The object after the call. -/
def Called.object {α : Type} : Called α → α
  | .returned a => a
  | .raised _ a => a

def Called.isRaised {α : Type} : Called α → Bool
  | .returned _ => false
  | .raised .. => true

end FileExtractor

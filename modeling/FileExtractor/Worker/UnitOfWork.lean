import FileExtractor.Lib.Transaction
import FileExtractor.Worker.Execution

/-!
# The unit of work

`infrastructure/database/sqlalchemy_uow.py` and the requests that the repositories make of its one
`AsyncSession`, for a run of `execute`. `async with self._uow` is a block: `__aexit__` rolls back
when the body has raised, and does nothing otherwise, so a block without a commit leaves its
transaction open. `session.add`, `session.delete` and an assignment to an attribute wait for the
flush that the next `session.execute` or the commit begins with. The existence check of the handler
is outside of every block, so that its failure leaves the transaction aborted.

The exceptions of the library in an aborted transaction and for a constraint are parameters.
-/

namespace FileExtractor

open Rel Lts Transaction

/-- The tables of the database. -/
structure Tables where
  tasks : TaskTable
  files : FileTable
  downloaded : DownloadedTable

def Store.tables (s : Store) : Tables := ⟨s.tasks, s.files, s.downloaded⟩

/-- What a call asks of the session. -/
inductive Request where
  | block (ops : List (Op Tables)) (commits : Bool)
  | bare

/-- `session.get` and a `select` read. -/
def readRow : Op Tables := .execute some

/-- The requests of the repository methods that the call is made of. -/
def Call.request : Call → Option Request
  | getById _ => some (.block [readRow] false)
  | updateTask task =>
    some (.block [readRow, .defer fun t => some { t with tasks := t.tasks.update task }] true)
  | addFile taskId file fileHash =>
    some (.block [
      .defer fun t => (t.files.add file).map fun files => { t with files := files },
      .defer fun t => (t.downloaded.record taskId file.filename fileHash).map fun downloaded =>
        { t with downloaded := downloaded }] true)
  | deleteFile taskId file =>
    some (.block [readRow,
      .defer fun t => some { t with files := t.files.deleteById file.id },
      .execute fun t => some { t with
        downloaded := t.downloaded.deleteRecord taskId file.filename }] true)
  | downloadedFileExists _ _ => some .bare
  | getFileNames _ | downloadStream _ | nextEntry | uploadStream _ _ => none
  | markDownloaded _ _ | deleteObject _ => none

/-- What the call returns, read from the tables. -/
def Call.answer (t : Tables) : Call → Answer
  | getById taskId => .task (t.tasks.getById taskId)
  | downloadedFileExists taskId filename => .found (t.downloaded.exists_ taskId filename)
  | _ => .done

/-- What the handler sees of its requests: the exception, or the answer. -/
def Call.seen (c : Call) : Option Exn × Session Tables → Except Exn Answer
  | (some e, _) => .error e
  | (none, s) => .ok (c.answer s.working)

/-- A run of `execute` with its session. -/
structure SessionRun where
  command : ProcessFilesCommand
  now : Time
  handler : Handler
  session : Session Tables
  bucket : String → Option Bytes

/-- The reply of the API, the storage or the archive, or what happens to the requests of a call of
the database, and the time until then. -/
inductive SessionEvent where
  | remote (elapsed : Time) (reply : Reply)
  | database (elapsed : Time) (faults : List (Option Exn)) (fault : Option Exn)
      (fate : Transaction.Fate Exn)

def SessionEvent.elapsed : SessionEvent → Time
  | .remote elapsed _ => elapsed
  | .database elapsed _ _ _ => elapsed

namespace SessionRun

/-- `execute(command)` is called with a session that has just committed the claim. -/
def start (command : ProcessFilesCommand) (now : Time) (store : Store) : SessionRun :=
  ⟨command, now, .getTask, .start store.tables, store.bucket⟩

def store (r : SessionRun) : Store where
  tasks := r.session.committed.tasks
  files := r.session.committed.files
  downloaded := r.session.committed.downloaded
  bucket := r.bucket
  owner := fun _ => none
  marked := []

section Step

variable (sha256 : Bytes → Digest) (E : Errors Exn)

/-- The requests of a call. -/
def ask (request : Request) (faults : List (Option Exn)) (fault : Option Exn)
    (fate : Transaction.Fate Exn) (s : Session Tables) : Option Exn × Session Tables :=
  match request with
  | .block ops commits => s.block E ops commits faults fault fate
  | .bare => s.request E readRow fault

def remote (r : SessionRun) (elapsed : Time) (reply : Reply) : Option SessionRun := do
  let c ← r.handler.call r.command
  if c.request.isSome then none
  else do
    let store ← r.store.serve r.command.taskId c reply
    let handler ← r.handler.resume sha256 (r.now + elapsed) reply.seen
    some { r with now := r.now + elapsed, handler := handler, bucket := store.bucket }

def database (r : SessionRun) (elapsed : Time) (faults : List (Option Exn)) (fault : Option Exn)
    (fate : Transaction.Fate Exn) : Option SessionRun := do
  let c ← r.handler.call r.command
  let request ← c.request
  let result := ask E request faults fault fate r.session
  let handler ← r.handler.resume sha256 (r.now + elapsed) (c.seen result)
  some { r with now := r.now + elapsed, handler := handler, session := result.2 }

def step (r : SessionRun) : SessionEvent → Option SessionRun
  | .remote elapsed reply => if 0 ≤ elapsed then r.remote sha256 elapsed reply else none
  | .database elapsed faults fault fate =>
    if 0 ≤ elapsed then r.database sha256 E elapsed faults fault fate else none

/-- The runs with a session. -/
def sessionRuns : System SessionRun SessionEvent where
  init r := ∃ command now store, r = start command now store
  step := step sha256 E

end Step

variable {sha256 : Bytes → Digest} {E : Errors Exn} {r r' : SessionRun} {elapsed : Time}

theorem step_remote {reply : Reply}
    (h : (sessionRuns sha256 E).step r (.remote elapsed reply) = some r') :
    ∃ c store handler, 0 ≤ elapsed ∧ r.handler.call r.command = some c ∧ c.request = none ∧
      r.store.serve r.command.taskId c reply = some store ∧
      r.handler.resume sha256 (r.now + elapsed) reply.seen = some handler ∧
      r' = { r with now := r.now + elapsed, handler := handler, bucket := store.bucket } := by
  replace h : (if 0 ≤ elapsed then r.remote sha256 elapsed reply else none) = some r' := h
  split at h
  · next ht =>
    obtain ⟨c, hc, h⟩ := Option.bind_eq_some_iff.mp h
    split at h
    · cases h
    · next hreq =>
      obtain ⟨store, hs, h⟩ := Option.bind_eq_some_iff.mp h
      obtain ⟨handler, hr, h⟩ := Option.bind_eq_some_iff.mp h
      cases h
      exact ⟨c, store, handler, ht, hc, Option.not_isSome_iff_eq_none.mp hreq, hs, hr, rfl⟩
  · cases h

theorem step_database {faults : List (Option Exn)} {fault : Option Exn}
    {fate : Transaction.Fate Exn}
    (h : (sessionRuns sha256 E).step r (.database elapsed faults fault fate) = some r') :
    ∃ c request result handler, 0 ≤ elapsed ∧ r.handler.call r.command = some c ∧
      c.request = some request ∧ ask E request faults fault fate r.session = result ∧
      r.handler.resume sha256 (r.now + elapsed) (c.seen result) = some handler ∧
      r' = { r with now := r.now + elapsed, handler := handler, session := result.2 } := by
  replace h : (if 0 ≤ elapsed then r.database sha256 E elapsed faults fault fate else none) =
    some r' := h
  split at h
  · next ht =>
    obtain ⟨c, hc, h⟩ := Option.bind_eq_some_iff.mp h
    obtain ⟨request, hreq, h⟩ := Option.bind_eq_some_iff.mp h
    obtain ⟨handler, hr, h⟩ := Option.bind_eq_some_iff.mp h
    cases h
    exact ⟨c, request, _, handler, ht, hc, hreq, rfl, hr, rfl⟩
  · cases h

end SessionRun

end FileExtractor

import FileExtractor.Lib.System
import FileExtractor.Lib.TempDir
import FileExtractor.Infrastructure.CatalogClient

/-!
# The stream of a download

`CatalogClient.download_files_stream` and `_request_download_stream`
(`infrastructure/external_api/catalog_client.py`). An attempt writes the body of its response to a
temporary file. If it raises, it unlinks the file, and the executor decides what follows. The
generator then reads the file of the attempt that completed, and unlinks it in its `finally`.

The events are those of the API (`chunk`, `fail`, `complete`), of the consumer (`next`, `close`) and
of the time between.
-/

namespace FileExtractor

/-- The exception of an attempt, as the executor tells them apart. -/
inductive AttemptError where
  | rateLimited (retryAfter : Int)
  | retryable (e : Exn)
  | raised (e : Exn)

def AttemptError.outcome {α : Type} : AttemptError → Outcome α
  | rateLimited retryAfter => .rateLimited retryAfter
  | retryable e => .retryable e
  | raised e => .raised e

/-- Where the generator is. -/
inductive StreamPhase where
  /-- Before its first `next`. -/
  | created
  /-- In `limiter.wait()`. -/
  | wait
  /-- In the request, with the temporary file. -/
  | attempt (name : String)
  | backoff (delay : ℚ)
  /-- In `f.read(65536)`, at a position of the file. -/
  | read (path : String) (pos : Nat)
  | yielded (path : String) (pos : Nat)
  | finished
  | closed
  | raised (e : Exn)

/-- The generator is over. -/
def StreamPhase.isOver : StreamPhase → Bool
  | finished | closed | raised _ => true
  | _ => false

structure DownloadStream where
  retry : AsyncRetryExecutor
  attempts : Attempts
  dir : TempDir UInt8
  yielded : List Bytes
  phase : StreamPhase

namespace DownloadStream

/-- The generator as `download_files_stream(file_names)` returns it. -/
def new (retry : AsyncRetryExecutor) : DownloadStream where
  retry := retry
  attempts := ⟨0, 0⟩
  dir := .empty
  yielded := []
  phase := .created

/-- The number of the bytes of a read. -/
def chunkSize : Nat := 65536

inductive Event where
  /-- `__anext__` of the consumer. -/
  | next
  /-- `aclose` of the consumer. -/
  | close
  /-- The wait of the limiter is over, and the file is made. -/
  | create (name : String)
  /-- A chunk of the body is written. -/
  | chunk (bytes : Bytes)
  /-- The attempt raises; `u` is the random number of the executor. -/
  | fail (e : AttemptError) (u : ℚ)
  | complete
  /-- The sleep of the executor is over. -/
  | wake
  | read

/-- What the executor has decided. -/
def decided (s : DownloadStream) : Decision String → DownloadStream
  | .stop (.ok path) => { s with phase := .read path 0 }
  | .stop (.error e) => { s with phase := .raised e }
  | .sleep delay attempts => { s with attempts := attempts, phase := .backoff delay }

/-- `await f.read(65536)` at the position `pos`. -/
def chunkAt (s : DownloadStream) (path : String) (pos : Nat) : Bytes :=
  (((s.dir.content? path).getD []).drop pos).take chunkSize

def step (s : DownloadStream) (ev : Event) : Option DownloadStream :=
  match s.phase, ev with
  | .created, .next => some { s with phase := .wait }
  | .created, .close => some { s with phase := .closed }
  | .wait, .create name =>
    (s.dir.create? name).map fun dir => { s with dir := dir, phase := .attempt name }
  | .attempt name, .chunk bytes => some { s with dir := s.dir.append name bytes }
  | .attempt name, .fail e u =>
    some ({ s with dir := s.dir.unlink name }.decided (s.retry.handle s.attempts u e.outcome))
  | .attempt name, .complete => some (s.decided (s.retry.handle s.attempts 0 (.returned name)))
  | .backoff _, .wake => some { s with phase := .wait }
  | .read path pos, .read =>
    let chunk := s.chunkAt path pos
    if chunk = [] then some { s with dir := s.dir.unlink path, phase := .finished }
    else some { s with
      yielded := s.yielded ++ [chunk]
      phase := .yielded path (pos + chunk.length) }
  | .yielded path pos, .next => some { s with phase := .read path pos }
  | .yielded path _, .close => some { s with dir := s.dir.unlink path, phase := .closed }
  | _, _ => none

/-- A generator with any limits of the retries. -/
def system : Lts.System DownloadStream Event where
  init s := ∃ retry, s = new retry
  step := step

end DownloadStream

end FileExtractor

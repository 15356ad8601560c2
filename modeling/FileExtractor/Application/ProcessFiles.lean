import FileExtractor.Infrastructure.Zip
import FileExtractor.Infrastructure.Database

/-!
# `ProcessFilesHandler`

`application/handlers/download_handler.py` as a machine. A `Handler` is what a running `execute`
awaits next, with its local variables (`Frame`); `Handler.call` is the awaited call, and `resume`
runs the code from the answer, or from the exception that the call raised, to the next `await`.
Each `await` of the source is one state, so other processes run between any two of them.
`async with self._uow: ..; await self._uow.commit()` is one call: one transaction.

The helpers of the source keep their names: `failTask`, `handleBlock`, `cleanupBatchFiles`,
`maybeHeartbeat`. The rest of `_run` is cut at its `await`s: `loopHead` and `nextBatch` are the
head and the middle of `while True`, `afterCleanup` is the end of the four `except` clauses that
clean a batch up.

`archive.read` of an entry may raise, so the generator of the extracted files is awaited once
for every file and once for its end (`nextEntry`).
-/

namespace FileExtractor

structure ProcessFilesCommand where
  taskId : TaskId
  candidateId : Option String
  deriving DecidableEq

/-- The calls of the handler to its collaborators. -/
inductive Call where
  | getById (taskId : TaskId)
  | getFileNames (candidateId : Option String)
  | downloadStream (batch : List String)
  | nextEntry
  | updateTask (task : DownloadTask)
  | downloadedFileExists (taskId : TaskId) (filename : String)
  | uploadStream (key : String) (content : Bytes)
  | addFile (taskId : TaskId) (file : File) (fileHash : FileHash)
  | markDownloaded (batch : List String) (candidateId : Option String)
  | deleteObject (key : String)
  | deleteFile (taskId : TaskId) (file : File)

/-- What a call returns. `stored` is the end of an upload, with the UUID that the code draws right
after it. -/
inductive Answer where
  | task (task : Option DownloadTask)
  | names (fileNames : List String)
  | archive (archive : Archive)
  | next
  | found (exists_ : Bool)
  | stored (fileId : FileId)
  | done

/-- The local variables of `_run`. -/
structure Frame where
  task : DownloadTask
  pending : List String
  heartbeatCounter : Nat
  batch : List String
  batchFileEntities : List File

/-- The variables at the start of `_run`. -/
def Frame.start (task : DownloadTask) : Frame where
  task := task
  pending := []
  heartbeatCounter := 0
  batch := []
  batchFileEntities := []

/-- What a running `execute` awaits. `rest` are the files that the archive still yields, `e` is
the exception that is being handled, and `todo` are the files to clean up after `file`. -/
inductive Handler where
  | getTask
  | names (f : Frame)
  | storeReceived (f : Frame)
  | download (f : Frame)
  | extract (f : Frame) (rest : List ExtractedFile)
  | storeHeartbeat (f : Frame) (extracted : ExtractedFile) (rest : List ExtractedFile)
  | checkExists (f : Frame) (extracted : ExtractedFile) (rest : List ExtractedFile)
  | upload (f : Frame) (extracted : ExtractedFile) (rest : List ExtractedFile)
  | record (f : Frame) (file : File) (fileHash : FileHash) (rest : List ExtractedFile)
  | mark (f : Frame)
  | storeProcessed (f : Frame)
  | deleteObject (f : Frame) (e : Exn) (key : String) (file : File) (todo : List File)
  | deleteRows (f : Frame) (e : Exn) (file : File) (todo : List File)
  | storeBlocked (f : Frame)
  | storeSuccess (f : Frame)
  | storeFailed (f : Frame)
  | ended (e : Option Exn)

namespace Handler

/-- `HEARTBEAT_INTERVAL` and `BLOCK_THRESHOLD_SECONDS`. -/
def heartbeatInterval : Nat := 30
def blockThresholdSeconds : Int := 60

/-- `StorageKey(f"files/{extracted.filename}")`. -/
def storageKey (filename : String) : String := "files/" ++ filename

/-- The awaited call of `execute(command)`; an ended handler awaits none. -/
def call (command : ProcessFilesCommand) : Handler → Option Call
  | getTask => some (.getById command.taskId)
  | names _ => some (.getFileNames command.candidateId)
  | storeReceived f => some (.updateTask f.task)
  | download f => some (.downloadStream f.batch)
  | extract _ _ => some .nextEntry
  | storeHeartbeat f _ _ => some (.updateTask f.task)
  | checkExists f extracted _ => some (.downloadedFileExists f.task.id extracted.filename)
  | upload _ extracted _ => some (.uploadStream (storageKey extracted.filename) extracted.content)
  | record f file fileHash _ => some (.addFile f.task.id file fileHash)
  | mark f => some (.markDownloaded f.batch command.candidateId)
  | storeProcessed f => some (.updateTask f.task)
  | deleteObject _ _ key _ _ => some (.deleteObject key)
  | deleteRows f _ file _ => some (.deleteFile f.task.id file)
  | storeBlocked f => some (.updateTask f.task)
  | storeSuccess f => some (.updateTask f.task)
  | storeFailed f => some (.updateTask f.task)
  | ended _ => none

section Code

variable (sha256 : Bytes → Digest) (now : Time)

/-- The `except Exception` of `execute`: `_fail_task(task, str(e))`. -/
def failTask (f : Frame) (e : Exn) : Handler :=
  match f.task.fail e.str now with
  | .returned t => storeFailed { f with task := t }
  | .raised e' _ => ended (some e')

/-- `_handle_block`, and the `raise` after it where it returns `False`. -/
def handleBlock (f : Frame) (retryAfter : Int) : Handler :=
  if retryAfter ≤ blockThresholdSeconds then failTask now f (.blocked retryAfter)
  else
    match f.task.block retryAfter (Exn.blocked retryAfter).str now with
    | .returned t => storeBlocked { f with task := t }
    | .raised e t => failTask now { f with task := t } e

/-- After the loop: `task.complete()`. -/
def complete (f : Frame) : Handler :=
  match f.task.complete now with
  | .returned t => storeSuccess { f with task := t }
  | .raised e t => failTask now { f with task := t } e

/-- The next batch of at most three names, and its download. -/
def nextBatch (f : Frame) : Handler :=
  download { f with
    batch := f.pending.take 3
    pending := f.pending.drop 3
    batchFileEntities := [] }

/-- The head of the loop. -/
def loopHead (f : Frame) : Handler :=
  if f.pending.length < 3 then names f else nextBatch f

/-- The answer of `get_file_names`. -/
def gotNames (f : Frame) (fileNames : List String) : Handler :=
  if fileNames = [] then
    if f.pending = [] then complete now f else nextBatch f
  else
    let f := { f with pending := f.pending ++ fileNames }
    match f.task.increaseReceived fileNames.length with
    | .returned t => storeReceived { f with task := t }
    | .raised e t => failTask now { f with task := t } e

/-- The end of an `except` clause that has cleaned the batch up. -/
def afterCleanup (f : Frame) (e : Exn) : Handler :=
  let f := { f with task := f.task.decreaseReceived (f.batch.length + f.pending.length) }
  match e with
  | .blocked retryAfter => handleBlock now f retryAfter
  | e => failTask now f e

/-- `_cleanup_batch_files`, from the first file of the list on. -/
def cleanupBatchFiles (f : Frame) (e : Exn) : List File → Handler
  | [] => afterCleanup now f e
  | file :: todo =>
    match file.storageKey with
    | none => cleanupBatchFiles f e todo
    | some key => deleteObject f e key file todo

/-- The `except` clauses of the batch: clean its files up. -/
def failBatch (f : Frame) (e : Exn) : Handler := cleanupBatchFiles now f e f.batchFileEntities

/-- `heartbeat_counter += 1`, and the existence check. -/
def countEntry (f : Frame) (extracted : ExtractedFile) (rest : List ExtractedFile) : Handler :=
  checkExists { f with heartbeatCounter := f.heartbeatCounter + 1 } extracted rest

/-- `_maybe_heartbeat` and what follows it. -/
def maybeHeartbeat (f : Frame) (extracted : ExtractedFile) (rest : List ExtractedFile) :
    Handler :=
  if f.heartbeatCounter % heartbeatInterval = 0 then
    match f.task.heartbeat now with
    | .returned t => storeHeartbeat { f with task := t } extracted rest
    | .raised e t => failBatch now { f with task := t } e
  else countEntry f extracted rest

/-- The `File` of an uploaded object. -/
def uploadedFile (fileId : FileId) (extracted : ExtractedFile) : Called File :=
  let fileHash := FileHash.compute sha256 extracted.content
  match (File.new fileId extracted.filename extracted.size fileHash now).startUpload with
  | .raised e file => .raised e file
  | .returned file => file.completeUpload (storageKey extracted.filename) fileHash now

/-- After the upload. -/
def uploaded (f : Frame) (fileId : FileId) (extracted : ExtractedFile)
    (rest : List ExtractedFile) : Handler :=
  match uploadedFile sha256 now fileId extracted with
  | .returned file => record f file (FileHash.compute sha256 extracted.content) rest
  | .raised e _ => failBatch now f e

/-- After `mark_downloaded`: `task.increase_processed(len(batch))`, inside the same `try`. -/
def marked (f : Frame) : Handler :=
  match f.task.increaseProcessed f.batch.length with
  | .returned t => storeProcessed { f with task := t }
  | .raised e t => failBatch now { f with task := t } e

/-- The code from the answer to the awaited call to the next `await`; `none` if the call does not
give such an answer. -/
def resume : Handler → Except Exn Answer → Option Handler
  | getTask, .ok (.task none) => some (ended none)
  | getTask, .ok (.task (some task)) => some (loopHead (.start task))
  | getTask, .error e => some (ended (some e))
  | names f, .ok (.names fileNames) => some (gotNames now f fileNames)
  | names f, .error (.blocked retryAfter) => some (handleBlock now f retryAfter)
  | names f, .error e => some (failTask now f e)
  | storeReceived f, .ok .done => some (nextBatch f)
  | storeReceived f, .error e => some (failTask now f e)
  | download f, .ok (.archive archive) => some (extract f (extractStream archive))
  | download f, .error e => some (failBatch now f e)
  | extract f [], .ok .next => some (mark f)
  | extract f (extracted :: rest), .ok .next => some (maybeHeartbeat now f extracted rest)
  | extract f _, .error e => some (failBatch now f e)
  | storeHeartbeat f extracted rest, .ok .done => some (countEntry f extracted rest)
  | storeHeartbeat f _ _, .error e => some (failBatch now f e)
  | checkExists f _ rest, .ok (.found true) => some (extract f rest)
  | checkExists f extracted rest, .ok (.found false) => some (upload f extracted rest)
  | checkExists f _ _, .error e => some (failBatch now f e)
  | upload f extracted rest, .ok (.stored fileId) =>
    some (uploaded sha256 now f fileId extracted rest)
  | upload f _ _, .error e => some (failBatch now f e)
  | record f file _ rest, .ok .done =>
    some (extract { f with batchFileEntities := f.batchFileEntities ++ [file] } rest)
  | record f _ _ _, .error e => some (failBatch now f e)
  | mark f, .ok .done => some (marked now f)
  | mark f, .error e => some (failBatch now f e)
  | storeProcessed f, .ok .done => some (loopHead f)
  | storeProcessed f, .error e => some (failTask now f e)
  -- the two `except Exception` of the cleanup swallow the error
  | deleteObject f e _ file todo, .ok .done => some (deleteRows f e file todo)
  | deleteObject f e _ file todo, .error _ => some (deleteRows f e file todo)
  | deleteRows f e _ todo, .ok .done => some (cleanupBatchFiles now f e todo)
  | deleteRows f e _ todo, .error _ => some (cleanupBatchFiles now f e todo)
  | storeBlocked _, .ok .done => some (ended none)
  | storeBlocked f, .error e => some (failTask now f e)
  | storeSuccess _, .ok .done => some (ended none)
  | storeSuccess f, .error e => some (failTask now f e)
  | storeFailed _, .ok .done => some (ended none)
  | storeFailed _, .error e => some (ended (some e))
  | _, _ => none

end Code

/-- The run of `execute` is over. -/
def isEnded : Handler → Bool
  | ended _ => true
  | _ => false

end Handler

end FileExtractor

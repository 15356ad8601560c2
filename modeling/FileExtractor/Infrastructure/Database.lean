import FileExtractor.Lib.Table
import FileExtractor.Domain.DownloadTask
import FileExtractor.Domain.File

/-!
# The tables and the repositories

`infrastructure/database/models.py` and `repositories.py`. The three tables are `Rel.Table`s: the
primary keys of `files` and `download_tasks`, and `UNIQUE(task_id, file_name)` of
`downloaded_files` (its own UUID is not used). Each repository method is one SQL statement, a
function of the table; `now` is the value of `datetime.now(UTC)` in the method.

`_to_model` and `_to_domain` of a task copy its thirteen fields; the row holds the name of the
status, which is read back as the same status.
-/

namespace FileExtractor

open Rel

/-! ## `download_tasks` -/

/-- A row of `download_tasks`. -/
structure DownloadTaskModel where
  id : TaskId
  candidateId : String
  status : TaskStatus
  receivedFiles : Int
  processedFiles : Int
  error : Option String
  startedAt : Option Time
  finishedAt : Option Time
  workerId : Option String
  lastHeartbeat : Option Time
  attempts : Int
  blockedUntil : Option Time
  blockReason : Option String
  deriving DecidableEq

abbrev TaskTable := Table DownloadTaskModel.id

/-- `SQLAlchemyTaskRepository._to_model`. -/
def DownloadTask.toModel (t : DownloadTask) : DownloadTaskModel where
  id := t.id
  candidateId := t.candidateId
  status := t.status
  receivedFiles := t.receivedFiles
  processedFiles := t.processedFiles
  error := t.error
  startedAt := t.startedAt
  finishedAt := t.finishedAt
  workerId := t.workerId
  lastHeartbeat := t.lastHeartbeat
  attempts := t.attempts
  blockedUntil := t.blockedUntil
  blockReason := t.blockReason

namespace DownloadTaskModel

/-- `SQLAlchemyTaskRepository._to_domain`. -/
def toDomain (m : DownloadTaskModel) : DownloadTask where
  id := m.id
  candidateId := m.candidateId
  status := m.status
  receivedFiles := m.receivedFiles
  processedFiles := m.processedFiles
  error := m.error
  startedAt := m.startedAt
  finishedAt := m.finishedAt
  workerId := m.workerId
  lastHeartbeat := m.lastHeartbeat
  attempts := m.attempts
  blockedUntil := m.blockedUntil
  blockReason := m.blockReason

/-- The eleven columns that `update` assigns. -/
def assign (t : DownloadTask) (m : DownloadTaskModel) : DownloadTaskModel :=
  { m with
    status := t.status
    receivedFiles := t.receivedFiles
    processedFiles := t.processedFiles
    error := t.error
    startedAt := t.startedAt
    finishedAt := t.finishedAt
    workerId := t.workerId
    lastHeartbeat := t.lastHeartbeat
    attempts := t.attempts
    blockedUntil := t.blockedUntil
    blockReason := t.blockReason }

/-- The values of the `UPDATE` of `claim`. -/
def claimed (workerId : String) (now : Time) (m : DownloadTaskModel) : DownloadTaskModel :=
  { m with
    status := .running
    workerId := some workerId
    startedAt := some now
    lastHeartbeat := some now
    attempts := m.attempts + 1
    error := none
    blockedUntil := none
    blockReason := none }

/-- The values of the `UPDATE` of `reclaim_stuck`. -/
def releasedStuck (m : DownloadTaskModel) : DownloadTaskModel :=
  { m with
    status := .pending
    workerId := none
    lastHeartbeat := none
    blockedUntil := none
    blockReason := none }

/-- The values of the `UPDATE` of `reclaim_blocked`. -/
def releasedBlocked (m : DownloadTaskModel) : DownloadTaskModel :=
  { m with
    status := .pending
    workerId := none
    blockedUntil := none
    blockReason := none }

@[simp] theorem assign_id (t : DownloadTask) (m : DownloadTaskModel) : (m.assign t).id = m.id := rfl

@[simp] theorem claimed_id (workerId : String) (now : Time) (m : DownloadTaskModel) :
    (m.claimed workerId now).id = m.id := rfl

@[simp] theorem releasedStuck_id (m : DownloadTaskModel) : m.releasedStuck.id = m.id := rfl

@[simp] theorem releasedBlocked_id (m : DownloadTaskModel) : m.releasedBlocked.id = m.id := rfl

/-- The `WHERE` of the sub-select of `reclaim_stuck`; a comparison with `NULL` is not true. -/
def isStuck (cutoff : Time) (m : DownloadTaskModel) : Bool :=
  m.status = .running && m.lastHeartbeat.any (· < cutoff)

/-- The `WHERE` of the sub-select of `reclaim_blocked`. -/
def isReleasable (now : Time) (m : DownloadTaskModel) : Bool :=
  m.status = .blocked && m.blockedUntil.any (· < now)

theorem running_of_isStuck {cutoff : Time} {m : DownloadTaskModel} (h : m.isStuck cutoff = true) :
    m.status = .running := of_decide_eq_true ((Bool.and_eq_true ..).mp h).1

theorem blocked_of_isReleasable {now : Time} {m : DownloadTaskModel}
    (h : m.isReleasable now = true) : m.status = .blocked :=
  of_decide_eq_true ((Bool.and_eq_true ..).mp h).1

end DownloadTaskModel

namespace TaskTable

open DownloadTaskModel

/-- `add`; `none` is the violation of the primary key. -/
def add (tasks : TaskTable) (t : DownloadTask) : Option TaskTable := tasks.insert? t.toModel

def getById (tasks : TaskTable) (taskId : TaskId) : Option DownloadTask :=
  (tasks.get? taskId).map toDomain

/-- `update`: the row with the id of the task, if there is one, gets the eleven columns. -/
def update (tasks : TaskTable) (t : DownloadTask) : TaskTable :=
  tasks.modify (fun m => m.id = t.id) (assign t) (assign_id t)

/-- The `WHERE` of `claim`. -/
def claimable (taskId : TaskId) (m : DownloadTaskModel) : Bool :=
  m.id = taskId && m.status = .pending

/-- `claim`: the table after the statement, and the row that it returns. -/
def claim (tasks : TaskTable) (taskId : TaskId) (workerId : String) (now : Time) :
    TaskTable × Option DownloadTask :=
  (tasks.modify (claimable taskId) (claimed workerId now) (claimed_id workerId now),
    ((tasks.get? taskId).filter (claimable taskId)).map fun m => (claimed workerId now m).toDomain)

/-- The `WHERE` of `update_heartbeat`. -/
def beating (taskId : TaskId) (m : DownloadTaskModel) : Bool :=
  m.id = taskId && m.status = .running

/-- `update_heartbeat`. -/
def updateHeartbeat (tasks : TaskTable) (taskId : TaskId) (now : Time) : TaskTable :=
  tasks.modify (beating taskId) (fun m => { m with lastHeartbeat := some now }) fun _ => rfl

/-- What a sub-select `SELECT id .. WHERE p LIMIT limit` may give: that many ids, each of a row
that satisfies `p`, in any order. -/
def selects (tasks : TaskTable) (p : DownloadTaskModel → Bool) (limit : Nat)
    (ids : List TaskId) : Bool :=
  ids.Nodup && ids.all (fun id => (tasks.get? id).any p) &&
    ids.length = min limit (tasks.rows.countP p)

/-- The `UPDATE` of `reclaim_stuck` for the ids of the sub-select. -/
def reclaimStuck (tasks : TaskTable) (ids : List TaskId) : TaskTable :=
  tasks.modify (fun m => ids.contains m.id) releasedStuck releasedStuck_id

/-- The `UPDATE` of `reclaim_blocked` for the ids of the sub-select. -/
def reclaimBlocked (tasks : TaskTable) (ids : List TaskId) : TaskTable :=
  tasks.modify (fun m => ids.contains m.id) releasedBlocked releasedBlocked_id

/-- The tasks that a reclaim returns: the rows of the ids. -/
def returning (tasks : TaskTable) (ids : List TaskId) : List DownloadTask :=
  ids.filterMap tasks.getById

end TaskTable

/-! ## `files` and `downloaded_files` -/

/-- A row of `files`. -/
structure FileModel where
  id : FileId
  filename : String
  size : Nat
  hash : Option String
  storageKey : Option String
  status : FileStatus
  createdAt : Time
  uploadedAt : Option Time
  deriving DecidableEq

/-- `SQLAlchemyFileRepository._to_model`. -/
def File.toModel (f : File) : FileModel where
  id := f.id
  filename := f.filename
  size := f.size
  hash := f.hash.map FileHash.value
  storageKey := f.storageKey
  status := f.status
  createdAt := f.createdAt
  uploadedAt := f.uploadedAt

/-- `SQLAlchemyFileRepository._to_domain`: an empty string is as good as `NULL`, and the hash of the
row is checked. -/
def FileModel.toDomain (m : FileModel) : Except Exn File := do
  let hash ← match m.hash with
    | none | some "" => pure none
    | some value => some <$> FileHash.ofString value
  return {
    id := m.id
    filename := m.filename
    size := m.size
    hash := hash
    storageKey := m.storageKey.filter (· ≠ "")
    status := m.status
    createdAt := m.createdAt
    uploadedAt := m.uploadedAt }

/-- The columns that a file is built from; it has a hash if the row has one that is not empty. -/
theorem FileModel.toDomain_ok {m : FileModel} {file : File} (h : m.toDomain = .ok file) :
    file.filename = m.filename ∧ file.storageKey = m.storageKey.filter (· ≠ "") ∧
      file.hash.isSome = m.hash.any (· ≠ "") := by
  unfold toDomain at h
  split at h
  · next hh => cases h; exact ⟨rfl, rfl, by rw [hh]; rfl⟩
  · next hh => cases h; exact ⟨rfl, rfl, by rw [hh]; rfl⟩
  · next value hne hh =>
    cases hv : FileHash.ofString value with
    | error e => rw [hv] at h; cases h
    | ok hash =>
      rw [hv] at h; cases h
      have : value ≠ "" := fun e => hne e
      exact ⟨rfl, rfl, by simp [hh, this]⟩

abbrev FileTable := Table FileModel.id

/-- A row of `downloaded_files`. -/
structure DownloadedFileModel where
  taskId : TaskId
  fileName : String
  hash : Option String
  deriving DecidableEq

/-- `UNIQUE(task_id, file_name)`. -/
def DownloadedFileModel.key (m : DownloadedFileModel) : TaskId × String := (m.taskId, m.fileName)

abbrev DownloadedTable := Table DownloadedFileModel.key

namespace FileTable

def add (files : FileTable) (f : File) : Option FileTable := files.insert? f.toModel

def getById (files : FileTable) (id : FileId) : Except Exn (Option File) :=
  (files.get? id).mapM FileModel.toDomain

def deleteById (files : FileTable) (id : FileId) : FileTable := files.delete fun m => m.id = id

theorem getById_ok {files : FileTable} {id : FileId} {file : Option File}
    (h : files.getById id = .ok file) :
    (files.get? id = none ∧ file = none) ∨
      ∃ m f, files.get? id = some m ∧ m.toDomain = .ok f ∧ file = some f := by
  unfold getById at h
  cases hm : files.get? id with
  | none => rw [hm] at h; cases h; exact .inl ⟨rfl, rfl⟩
  | some m =>
    rw [hm] at h
    cases hd : m.toDomain with
    | error e => simp [hd] at h
    | ok f =>
      simp only [Option.mapM_some, hd] at h
      cases h; exact .inr ⟨m, f, rfl, hd, rfl⟩

end FileTable

namespace DownloadedTable

/-- `downloaded_file_exists`. -/
def exists_ (downloaded : DownloadedTable) (taskId : TaskId) (filename : String) : Bool :=
  (downloaded.get? (taskId, filename)).isSome

/-- `record_downloaded_file`. -/
def record (downloaded : DownloadedTable) (taskId : TaskId) (filename : String)
    (fileHash : FileHash) : Option DownloadedTable :=
  downloaded.insert? ⟨taskId, filename, some fileHash.value⟩

/-- `delete_downloaded_file`. -/
def deleteRecord (downloaded : DownloadedTable) (taskId : TaskId) (filename : String) :
    DownloadedTable :=
  downloaded.delete fun m => m.key = (taskId, filename)

end DownloadedTable

end FileExtractor

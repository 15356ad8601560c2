import FileExtractor.Lib.Uuid
import FileExtractor.Application.CalculateStats
import FileExtractor.Frontend.DownloadPage
import FileExtractor.Frontend.FilesPage
import FileExtractor.Infrastructure.Queries

/-!
# The routes

`get_files`, `calculate_stats` and `list_tasks` of `presentation/api/routes.py`. In a response a
`FileId` is its text, and in a request it is read from a text by its constructor, one id after the
other.
-/

namespace FileExtractor

/-- `FileId(value)` for a text: the `ValueError` of `UUID`. -/
def FileId.ofText (value : String) : Except Exn FileId :=
  match Uuid.ofText value with
  | .ok id => .ok id
  | .error .length => .error (.other "badly formed hexadecimal UUID string")
  | .error (.literal hex) =>
    .error (.other ("invalid literal for int() with base 16: " ++ reprStr (String.ofList hex)))
  | .error .range => .error (.other "int is out of range (need a 128-bit value)")

/-- The response of `get_files`. -/
structure GetFilesResponse where
  items : List FileItem
  total : Nat
  page : Int
  perPage : Int

/-- `get_files(page, per_page, status)`, when the query finds the rows in the order `rows`. -/
def getFiles (files : FileTable) (rows : List FileModel) (page perPage : Int)
    (status : Option String) : Except Exn GetFilesResponse := do
  let result ← files.list rows (some { status := status }) page perPage
  return {
    items := result.items.map fun f => { id := Uuid.text f.id }
    total := result.total
    page := result.page
    perPage := result.perPage }

/-- The route `list_tasks`, when the query finds the rows in the order `rows`. -/
def listTasks (rows : List DownloadTaskModel) : List TaskStatusResponse :=
  (TaskTable.listTasks rows 10 0).map taskToResponse

namespace CalculateStats

/-- One turn of the first loop of `execute`, for an id of the request. -/
def listText (files : FileTable) (listed : List Listed) (fileId : String) :
    Except Exn (List Listed) := do
  let fileId ← FileId.ofText fileId
  list files listed fileId

/-- `calculate_stats(body)`: `execute` with the ids as they are in the request. -/
def calculateStats (files : FileTable) (bucket : String → Option Bytes) (fileIds : List String) :
    Except Exn CalculateStatsResult := do
  let listed ← fileIds.foldlM (listText files) []
  return digits.foldl fill (listed.foldl (countFile bucket) ⟨∅, ∅⟩)

/-- The texts of UUIDs are these UUIDs. -/
theorem calculateStats_texts (files : FileTable) (bucket : String → Option Bytes)
    {fileIds : List FileId} (h : ∀ id ∈ fileIds, id < 2 ^ 128) :
    calculateStats files bucket (fileIds.map Uuid.text) = execute files bucket fileIds := by
  have hloop : ∀ listed, (fileIds.map Uuid.text).foldlM (listText files) listed =
      fileIds.foldlM (list files) listed := by
    induction fileIds with
    | nil => exact fun listed => rfl
    | cons id fileIds ih =>
      intro listed
      have hone : listText files listed (Uuid.text id) = list files listed id := by
        rw [listText, FileId.ofText, Uuid.ofText_text (h id List.mem_cons_self)]
        rfl
      rw [List.map_cons, List.foldlM_cons, List.foldlM_cons, hone]
      exact congrArg _ (funext (ih fun x hx => h x (List.mem_cons_of_mem _ hx)))
  rw [calculateStats, hloop, execute]

end CalculateStats

end FileExtractor

import FileExtractor.Lib.OrderedSet

/-!
# The page with the files

`frontend/src/pages/FilesPage.tsx`: the list of files and the selection. A state update is one
event; the answer of a load sets the files and the selection in one render. `handleSelectPage` reads
the files of the last render.
-/

namespace FileExtractor

/-- `FileItem`; the selection reads the id alone. -/
structure FileItem where
  id : String
  deriving DecidableEq

/-- `FilesResponse`. -/
structure FilesResponse where
  items : List FileItem
  total : Nat
  page : Nat
  perPage : Nat

/-- `SelectedFiles`. -/
structure SelectedFiles where
  all : Bool
  page : OrderedSet String
  individual : OrderedSet String

/-- `FilesPageState` and the selection. -/
structure FilesPage where
  files : List FileItem
  total : Nat
  page : Nat
  perPage : Nat
  loading : Bool
  error : Option String
  selection : SelectedFiles

namespace FilesPage

/-- The arguments of the two `useState`. -/
def initial : FilesPage where
  files := []
  total := 0
  page := 1
  perPage := 20
  loading := true
  error := none
  selection := { all := false, page := .empty, individual := .empty }

/-- What happens to the page. -/
inductive Event where
  | loadStarted
  | loaded (res : FilesResponse)
  | loadFailed (message : String)
  | selectPage (checked : Bool)
  | selectOne (fileId : String) (checked : Bool)
  | pageChange (newPage : Int)
  | perPageChange (newPerPage : Nat)

/-- `handleSelectPage`. -/
def handleSelectPage (checked : Bool) (p : FilesPage) : FilesPage :=
  { p with selection := { p.selection with
      page := if checked then OrderedSet.empty.insertAll (p.files.map FileItem.id) else .empty
      all := false } }

/-- `handleSelectOne`. -/
def handleSelectOne (fileId : String) (checked : Bool) (p : FilesPage) : FilesPage :=
  { p with selection :=
      { page := if checked then p.selection.page.insert fileId else p.selection.page.erase fileId
        individual := if checked then p.selection.individual.insert fileId
          else p.selection.individual.erase fileId
        all := false } }

/-- `handlePageChange`: `newPage` is at least 1 and at most `Math.ceil(total / perPage)`. -/
def handlePageChange (newPage : Int) (p : FilesPage) : FilesPage :=
  if 1 ≤ newPage ∧ (newPage - 1) * p.perPage < p.total then { p with page := newPage.toNat } else p

def step (p : FilesPage) : Event → FilesPage
  | .loadStarted => { p with loading := true, error := none }
  | .loaded res =>
    { p with
      files := res.items
      total := res.total
      page := res.page
      perPage := res.perPage
      loading := false
      selection := { p.selection with page := .empty, all := false } }
  | .loadFailed message => { p with loading := false, error := some message }
  | .selectPage checked => p.handleSelectPage checked
  | .selectOne fileId checked => p.handleSelectOne fileId checked
  | .pageChange newPage => p.handlePageChange newPage
  | .perPageChange newPerPage => { p with page := 1, perPage := newPerPage }

def run (events : List Event) : FilesPage := events.foldl step initial

/-- `selectedFileIds`. -/
def selectedFileIds (p : FilesPage) : List String :=
  if p.selection.all then p.files.map FileItem.id
  else ((OrderedSet.empty.insertAll p.selection.individual.items).insertAll
    p.selection.page.items).items

/-- `isFileSelected`. -/
def isFileSelected (p : FilesPage) (fileId : String) : Bool :=
  p.selection.all || fileId ∈ p.selection.page || fileId ∈ p.selection.individual

theorem run_append (events : List Event) (e : Event) : run (events ++ [e]) = (run events).step e :=
  List.foldl_concat ..

end FilesPage

end FileExtractor

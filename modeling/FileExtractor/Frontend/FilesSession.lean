import FileExtractor.Frontend.FilesPage
import FileExtractor.Lib.System

/-!
# The loads of the page with the files

`FilesPage` with its effect and its requests. The effect runs `loadFiles` after the mount and after
every render in which `state.page` or `state.perPage` has changed, and `loadFiles` starts a request
that nobody cancels: the answers of all the requests in flight come in any order, and each sets
`page` and `perPage` to those of its request (`get_files` gives them back). So an answer may change
what the effect depends on, and start the next request.

`answered` is a ghost: the last answer. In a development build `React.StrictMode` runs the effect of
the mount twice; this is the production build.
-/

namespace FileExtractor

open Lts

/-- `api.getFiles({ page, per_page })`. -/
structure Load where
  page : Nat
  perPage : Nat
  deriving DecidableEq

structure FilesSession where
  page : FilesPage
  inFlight : List Load
  answered : Option FilesResponse

namespace FilesSession

/-- The dependencies of the effect. -/
def current (s : FilesSession) : Load := ⟨s.page.page, s.page.perPage⟩

/-- `loadFiles(state.page, state.perPage)` up to its `await`. -/
def loadFiles (s : FilesSession) : FilesSession :=
  { s with page := s.page.step .loadStarted, inFlight := s.inFlight ++ [s.current] }

/-- A render with the state `page`, and the effect. -/
def render (s : FilesSession) (page : FilesPage) : FilesSession :=
  let s' := { s with page := page }
  if s'.current = s.current then s' else s'.loadFiles

/-- The mount. -/
def mount : FilesSession := loadFiles { page := .initial, inFlight := [], answered := none }

/-- The `<option>`s. -/
def sizes : List Nat := [20, 50, 100]

/-- The end of a request, or an action of the user. -/
inductive Event where
  | answer (load : Load) (items : List FileItem) (total : Nat)
  | fail (load : Load) (message : String)
  | selectPage (checked : Bool)
  | selectOne (fileId : String) (checked : Bool)
  | pageChange (newPage : Int)
  | perPageChange (newPerPage : Nat)

def step (s : FilesSession) : Event → Option FilesSession
  | .answer load items total =>
    if load ∈ s.inFlight then
      let res : FilesResponse := ⟨items, total, load.page, load.perPage⟩
      some ({ s with inFlight := s.inFlight.erase load, answered := some res }.render
        (s.page.step (.loaded res)))
    else none
  | .fail load message =>
    if load ∈ s.inFlight then
      some ({ s with inFlight := s.inFlight.erase load }.render (s.page.step (.loadFailed message)))
    else none
  | .selectPage checked => some (s.render (s.page.step (.selectPage checked)))
  | .selectOne fileId checked => some (s.render (s.page.step (.selectOne fileId checked)))
  | .pageChange newPage => some (s.render (s.page.step (.pageChange newPage)))
  | .perPageChange newPerPage =>
    if newPerPage ∈ sizes then some (s.render (s.page.step (.perPageChange newPerPage))) else none

/-- The sessions of a page. -/
def sessions : System FilesSession Event where
  init s := s = mount
  step := step

variable {s : FilesSession} {page : FilesPage}

/-- A render that changes neither page nor size starts no request. -/
theorem render_same (h : page.page = s.page.page ∧ page.perPage = s.page.perPage) :
    s.render page = { s with page := page } := by
  simp [render, current, h.1, h.2]

theorem render_changed (h : Load.mk page.page page.perPage ≠ s.current) :
    s.render page = loadFiles { s with page := page } := if_neg h

end FilesSession

end FileExtractor

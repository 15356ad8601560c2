import FileExtractor.Application.CalculateStats
import FileExtractor.Frontend.FilesSession

/-!
# The calculations of the page with the files

`handleCalculateStats` and `handleCloseStats` of `FilesPage.tsx`, and the modal with the results.
The button is there when the page shows files and some are selected, and it is disabled during a
calculation; behind the modal it is reached with the keyboard. The error of a calculation is shown
inside the modal.

`calculating` are the requests without an answer, each with the ids of the closure that has sent it;
`shownFor` is a ghost: the ids of the request whose answer is in `stats`.
-/

namespace FileExtractor

open Lts

structure StatsPanel where
  session : FilesSession
  showStats : Bool
  stats : Option CalculateStatsResult
  statsLoading : Bool
  statsError : Option String
  calculating : List (List String)
  shownFor : List String

namespace StatsPanel

def mount : StatsPanel where
  session := .mount
  showStats := false
  stats := none
  statsLoading := false
  statsError := none
  calculating := []
  shownFor := []

/-- `showStats && stats`: the modal is there. -/
def modal (s : StatsPanel) : Bool := s.showStats && s.stats.isSome

/-- The button is there, and it is not disabled. -/
def button (s : StatsPanel) : Bool :=
  !s.session.page.loading && s.session.page.files ≠ [] && s.session.page.selectedFileIds ≠ [] &&
    !s.statsLoading

/-- `handleCalculateStats` up to its `await`. -/
def handleCalculateStats (s : StatsPanel) : StatsPanel :=
  if s.session.page.selectedFileIds = [] then s
  else { s with
    statsLoading := true
    statsError := none
    calculating := s.calculating ++ [s.session.page.selectedFileIds] }

/-- Behind the `await`. -/
def calculated (fileIds : List String) (res : CalculateStatsResult) (s : StatsPanel) :
    StatsPanel :=
  { s with stats := some res, shownFor := fileIds, showStats := true, statsLoading := false }

/-- The `catch`, and the `finally`. -/
def calculationFailed (message : String) (s : StatsPanel) : StatsPanel :=
  { s with statsError := some message, statsLoading := false }

def handleCloseStats (s : StatsPanel) : StatsPanel :=
  { s with showStats := false, stats := none, shownFor := [], statsError := none }

inductive Event where
  | session (e : FilesSession.Event)
  | calculate
  /-- The answer to the request number `n`. -/
  | calculated (n : Nat) (res : CalculateStatsResult)
  | failed (n : Nat) (message : String)
  | close

def step (s : StatsPanel) : Event → Option StatsPanel
  | .session e => do
    let session ← s.session.step e
    return { s with session := session }
  | .calculate => if s.button then some s.handleCalculateStats else none
  | .calculated n res => do
    let fileIds ← s.calculating[n]?
    return { s with calculating := s.calculating.eraseIdx n }.calculated fileIds res
  | .failed n message => do
    let _ ← s.calculating[n]?
    return { s with calculating := s.calculating.eraseIdx n }.calculationFailed message
  | .close => if s.modal then some s.handleCloseStats else none

def sessions : System StatsPanel Event where
  init s := s = mount
  step := step

end StatsPanel

end FileExtractor

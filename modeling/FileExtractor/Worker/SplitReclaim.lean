import FileExtractor.Infrastructure.ReclaimStatement
import FileExtractor.Worker.SplitUpdate

/-!
# The reclaims in two steps

The system of `SplitUpdate`, where the `UPDATE` of a reclaim is not one step either. Its sub-select
reads the committed rows of one moment; other transactions commit; and then the `UPDATE` releases
the selected rows, whatever they have become. It reaches them one after the other, but nobody else
writes a row that it has reached (`Reclaiming`): so what it commits are the versions of the rows at
its end, released.

`World.step` takes `reclaim_stuck` and `reclaim_blocked` as one step each: that is the case of a
sub-select with the `UPDATE` right behind it (`reclaim_at_once`).
-/

namespace FileExtractor

open Rel Lts World

/-- The two tasks of the watchdog. -/
inductive Pass where
  | stuck | blocked
  deriving DecidableEq

/-- The statement that a pass runs now. -/
def Pass.reclaim (now : Time) : Pass → Reclaim
  | stuck => .stuck (now - maxHeartbeatAge)
  | blocked => .blocked now

/-- The pass as one step of the system. -/
def Pass.label (pid : Pid) (ids : List TaskId) (fate : Fate) : Pass → Label
  | stuck => .reclaimStuck pid ids fate
  | blocked => .reclaimBlocked pid ids fate

/-- The status of the rows that are selected. -/
def Reclaim.status : Reclaim → TaskStatus
  | stuck _ => .running
  | blocked _ => .blocked

/-- The stores after the `UPDATE`, and the workers that it takes their tasks from. -/
def World.reclaimed (w : World) (ids : List TaskId) : Reclaim → World
  | .stuck cutoff => (w.setTasks ((Reclaim.stuck cutoff).run w.store.tasks ids)).release ids
  | .blocked now => w.setTasks ((Reclaim.blocked now).run w.store.tasks ids)

/-- The system after the `UPDATE` and the commit. -/
def World.reclaimUpdate (w : World) (pid : Pid) (ids : List TaskId) (r : Reclaim) : Fate → World
  | .refused => w
  | fate => (w.reclaimed ids r).afterCommit pid
    (((r.run w.store.tasks ids).returning ids).map requeueMessage) fate

structure StatementWorld where
  split : SplitWorld
  /-- The reclaims between their sub-select and their `UPDATE`, with the selected ids. -/
  selected : Pid → Option (Reclaim × List TaskId)

inductive StatementLabel where
  | other (l : SplitLabel)
  | subselect (pid : Pid) (pass : Pass) (ids : List TaskId)
  | update (pid : Pid) (fate : Fate)

namespace StatementWorld

/-- A process in a reclaim begins nothing else, and the reclaims are no steps of `World`. -/
def admits (s : StatementWorld) : SplitLabel → Bool
  | .step (.start pid _ _ _) | .step (.deliver pid _ _) => (s.selected pid).isNone
  | .step (.reclaimStuck _ _ _) | .step (.reclaimBlocked _ _ _) => false
  | _ => true

/-- A process that dies leaves no transaction. -/
def selectedAfter (s : StatementWorld) : SplitLabel → Pid → Option (Reclaim × List TaskId)
  | .step (.crash pid) => Function.update s.selected pid none
  | _ => s.selected

/-- The sub-select. -/
def subselect (s : StatementWorld) (pid : Pid) (pass : Pass) (ids : List TaskId) :
    Option StatementWorld :=
  let w := s.split.world
  let r := pass.reclaim w.now
  if w.isIdle pid && (s.selected pid).isNone && w.store.tasks.selects r.eligible reclaimLimit ids
  then some { s with selected := Function.update s.selected pid (some (r, ids)) }
  else none

/-- The `UPDATE` and the commit. -/
def update (s : StatementWorld) (pid : Pid) (fate : Fate) : Option StatementWorld :=
  (s.selected pid).map fun (r, ids) => {
    split := { s.split with world := s.split.world.reclaimUpdate pid ids r fate }
    selected := Function.update s.selected pid none }

section Step

variable (sha256 : Bytes → Digest)

def step (s : StatementWorld) : StatementLabel → Option StatementWorld
  | .other l =>
    if s.admits l then
      ((SplitWorld.split sha256).step s.split l).map fun split =>
        { split := split, selected := s.selectedAfter l }
    else none
  | .subselect pid pass ids => s.subselect pid pass ids
  | .update pid fate => s.update pid fate

/-- The system with all writes in their statements. -/
def statements : System StatementWorld StatementLabel where
  init s := (SplitWorld.split sha256).init s.split ∧ s.selected = fun _ => none
  step := step sha256

end Step

/-- The state of the system, with nothing in flight. -/
def settled (w : World) : StatementWorld := ⟨⟨w, fun _ => none⟩, fun _ => none⟩

/-- The start of the concrete runs. -/
def empty : StatementWorld := settled (fresh 0 fun _ => none)

theorem init_empty (sha256 : Bytes → Digest) : (statements sha256).init empty :=
  ⟨⟨⟨0, fun _ => none, rfl⟩, rfl⟩, rfl⟩

variable {sha256 : Bytes → Digest} {s s' : StatementWorld}

/-- What a step does. -/
inductive StatementStep (sha256 : Bytes → Digest) (s : StatementWorld) :
    StatementLabel → StatementWorld → Prop where
  | other (l : SplitLabel) (split : SplitWorld) (hl : s.admits l = true)
      (hst : (SplitWorld.split sha256).step s.split l = some split) :
      StatementStep sha256 s (.other l) { split := split, selected := s.selectedAfter l }
  | subselect (pid : Pid) (pass : Pass) (ids : List TaskId) (hp : s.split.world.procs pid = .idle)
      (hsel : s.split.world.store.tasks.selects
        (pass.reclaim s.split.world.now).eligible reclaimLimit ids = true) :
      StatementStep sha256 s (.subselect pid pass ids) { s with
        selected := Function.update s.selected pid (some (pass.reclaim s.split.world.now, ids)) }
  | update (pid : Pid) (r : Reclaim) (ids : List TaskId) (fate : Fate)
      (hsel : s.selected pid = some (r, ids)) :
      StatementStep sha256 s (.update pid fate) {
        split := { s.split with world := s.split.world.reclaimUpdate pid ids r fate }
        selected := Function.update s.selected pid none }

theorem StatementStep.of_step {l : StatementLabel} (h : (statements sha256).step s l = some s') :
    StatementStep sha256 s l s' := by
  cases l with
  | other l =>
    simp only [statements, step] at h
    split at h
    · next hl =>
      obtain ⟨split, hst, rfl⟩ := Option.map_eq_some_iff.mp h
      exact .other l split hl hst
    · cases h
  | subselect pid pass ids =>
    simp only [statements, step, StatementWorld.subselect] at h
    split at h
    · next hs =>
      simp only [Bool.and_eq_true, isIdle_eq] at hs
      cases h
      exact .subselect pid pass ids hs.1.1 hs.2
    · cases h
  | update pid fate =>
    obtain ⟨⟨r, ids⟩, hsel, rfl⟩ := Option.map_eq_some_iff.mp h
    exact .update pid r ids fate hsel

/-- A pass of the system: the sub-select and the `UPDATE` in one state. -/
theorem step_pass (w : World) (pid : Pid) (ids : List TaskId) (fate : Fate) (pass : Pass) :
    w.step sha256 (pass.label pid ids fate) =
      if w.isIdle pid && w.store.tasks.selects (pass.reclaim w.now).eligible reclaimLimit ids then
        some (w.reclaimUpdate pid ids (pass.reclaim w.now) fate)
      else none := by
  cases pass <;> cases fate <;> rfl

/-- **The reclaims of the system** are the sub-selects with the `UPDATE` right behind them. -/
theorem reclaim_at_once {w w' : World} {pid : Pid} {ids : List TaskId} {fate : Fate}
    {read : Pid → Option (Option DownloadTaskModel)}
    {selected : Pid → Option (Reclaim × List TaskId)} (hn : selected pid = none) (pass : Pass)
    (h : w.step sha256 (pass.label pid ids fate) = some w') :
    (statements sha256).run ⟨⟨w, read⟩, selected⟩ [.subselect pid pass ids, .update pid fate] =
      some ⟨⟨w', read⟩, selected⟩ := by
  rw [step_pass] at h
  split at h
  · next hs =>
    cases h
    rw [Bool.and_eq_true] at hs
    have hback : Function.update selected pid none = selected := by
      rw [← hn, Function.update_eq_self]
    simp [System.run_cons, statements, step, StatementWorld.subselect, hs, hn,
      StatementWorld.update, hback]
  · cases h

end StatementWorld

end FileExtractor

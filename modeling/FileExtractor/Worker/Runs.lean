import FileExtractor.Lib.Inevitable
import FileExtractor.Worker.Steps

/-!
# Runs of finitely many processes

A concrete run is evaluated, and a guard that speaks of all processes is checked for the first `n`
of them: the others are idle as long as no label names them (`World.Within`).
-/

namespace FileExtractor

open Lts World

/-- The label is a step of one of the first `n` processes, or of the environment. -/
def Label.within (n : Nat) : Label → Bool
  | .tick _ | .redeliver _ => true
  | .start pid _ _ _ | .send pid | .sendFails pid | .deliver pid _ _ | .claim pid _ => pid < n
  | .call pid _ | .ack pid | .reclaimStuck pid _ _ | .reclaimBlocked pid _ _ => pid < n
  | .crash pid => pid < n

/-- Only the first `n` processes are busy. -/
def World.Within (n : Nat) (w : World) : Prop := ∀ pid, n ≤ pid → w.procs pid = .idle

/-- `ReclaimsEnded`, checked for the first `n` processes. -/
def World.endedWithin (n : Nat) (w : World) (ids : List TaskId) : Bool :=
  (List.range n).all fun pid =>
    match w.procs pid with
    | .handling k => k.handler.isEnded || !ids.contains k.message.taskId
    | _ => true

variable {n : Nat} {sha256 : Bytes → Digest} {w w' : World} {l : Label}

theorem World.Within.fresh {now : Time} {bucket : String → Option Bytes} :
    (World.fresh now bucket).Within n := fun _ _ => rfl

/-- The check of the first `n` processes is one of all processes. -/
theorem World.ended_of_check (hw : w.Within n) {ids : List TaskId}
    (hc : w.endedWithin n ids = true) : ∀ pid k, w.procs pid = .handling k →
      k.message.taskId ∈ ids → k.handler.isEnded = true := by
  intro pid k hp hmem
  by_cases hlt : pid < n
  · have hk := List.all_eq_true.mp hc pid (List.mem_range.mpr hlt)
    simp only [hp, Bool.or_eq_true, Bool.not_eq_true', List.contains_eq_mem,
      decide_eq_false_iff_not] at hk
    exact hk.resolve_right (not_not_intro hmem)
  · rw [hw pid (Nat.le_of_not_lt hlt)] at hp; cases hp

theorem World.Within.step (hw : w.Within n) (h : Step sha256 w l w') (hl : l.within n = true) :
    w'.Within n := by
  intro pid hpid
  have ne : ∀ {q : Pid}, decide (q < n) = true → pid ≠ q := fun hq =>
    Nat.ne_of_gt (Nat.lt_of_lt_of_le (of_decide_eq_true hq) hpid)
  have other : ∀ {q : Pid} {p : Proc}, decide (q < n) = true →
      (w.setProc q p).procs pid = .idle := by
    intro q p hq
    rw [setProc_ne (ne hq)]; exact hw pid hpid
  have commit : ∀ {q : Pid} {v : World} {todo : List Message} {fate : Fate},
      decide (q < n) = true → v.procs pid = .idle →
      (v.afterCommit q todo fate).procs pid = .idle := by
    intro q v todo fate hq hv
    rw [afterCommit_procs, if_neg fun e => ne hq e.2]; exact hv
  cases h with
  | tick d hd => exact hw pid hpid
  | refused l hl' => exact hw pid hpid
  | redeliver m hm => exact hw pid hpid
  | start q taskId candidateId fate tasks hq hf ht =>
    exact commit (v := w.setTasks tasks) hl (hw pid hpid)
  | reclaimStuck q ids fate hq hf hsel =>
    refine commit (v := (w.setTasks _).release ids) hl ?_
    show (w.procs pid).release ids = .idle
    rw [hw pid hpid]; rfl
  | reclaimBlocked q ids fate hq hf hsel => exact commit (v := w.setTasks _) hl (hw pid hpid)
  | _ => exact other hl

theorem World.Within.run {ls : List Label} (hw : w.Within n) (hl : ∀ l ∈ ls, l.within n = true)
    (hrun : (system sha256).run w ls = some w') : w'.Within n :=
  System.run_keeps (I := World.Within n) (fun _ _ _ hv hl hst => hv.step (Step.of_step hst) hl) hw
    (System.guarded_of_forall fun l h _ => hl l h) hrun

end FileExtractor

import Mathlib.Data.List.Induction
import FileExtractor.Infrastructure.ReclaimStatement
import FileExtractor.Worker.Effects

/-!
# The rows that a reclaim overwrites

Between the sub-select and the moment when the `UPDATE` reaches a row, other transactions may have
written it. What the last of them has left can be read off the transactions alone (`lastWrite`: a
claim writes a row only when an earlier one has made it `PENDING`), and the `UPDATE` acts on
eligible rows exactly when that is eligible, or no transaction has written the row
(`actsOnEligible_iff`).
-/

namespace FileExtractor

open Rel Lts DownloadTaskModel TaskTable

/-- The columns that decide whether a row is eligible. -/
structure Tested where
  status : TaskStatus
  lastHeartbeat : Option Time
  blockedUntil : Option Time

namespace Commit

/-- What the transactions, the newest first, leave of the row, if one of them writes it. -/
def lastWrite (id : TaskId) : List Commit → Option Tested
  | [] => none
  | .claim taskId _ now :: cs =>
    if taskId = id ∧ (lastWrite id cs).any (fun c => c.status = .pending) then
      some ⟨.running, some now, none⟩
    else lastWrite id cs
  | .update t :: cs =>
    if t.id = id then some ⟨t.status, t.lastHeartbeat, t.blockedUntil⟩ else lastWrite id cs
  | .reclaimStuck ids :: cs | .reclaimBlocked ids :: cs =>
    if id ∈ ids then some ⟨.pending, none, none⟩ else lastWrite id cs

/-- The row is as the sub-select has seen it, or has been left eligible. -/
def leavesEligible (r : Reclaim) (id : TaskId) (cs : List Commit) : Bool :=
  (lastWrite id cs).all fun c => r.tests c.status c.lastHeartbeat c.blockedUntil

end Commit

namespace Reclaiming

open Commit

/-- The transactions of a run, the newest first. -/
def commits (es : List Event) : List Commit :=
  (es.filterMap fun e => match e with | .commit c => some c | .reach _ => none).reverse

/-- Each row is eligible in the version that the statement overwrites. -/
def ActsOnEligible (s : Reclaiming) (es : List Event) : Prop :=
  ∀ pre id, pre ++ [.reach id] <+: es → ∀ u, system.run s pre = some u →
    (u.tasks.get? id).any s.reclaim.eligible = true

/-- Each row is left eligible by the transactions before the statement reaches it. -/
def Undisturbed (r : Reclaim) (es : List Event) : Prop :=
  ∀ pre id, pre ++ [.reach id] <+: es → leavesEligible r id (commits pre) = true

/-! ## One row -/

/-- The row is what the transactions have left. The other columns of a `PENDING` row do not
count. -/
def Left (r : Reclaim) (m : DownloadTaskModel) : Option Tested → Prop
  | none => r.eligible m = true
  | some c => m.status = c.status ∧
    (c.status ≠ .pending → m.lastHeartbeat = c.lastHeartbeat ∧ m.blockedUntil = c.blockedUntil)

theorem Left.eligible {r : Reclaim} {m : DownloadTaskModel} {c : Option Tested} (h : Left r m c) :
    r.eligible m = c.all fun c => r.tests c.status c.lastHeartbeat c.blockedUntil := by
  cases c with
  | none => exact h
  | some c =>
    obtain ⟨hs, hrest⟩ := h
    rw [Option.all_some, Reclaim.eligible, hs]
    by_cases hp : c.status = .pending
    · rw [hp, Reclaim.tests_pending, Reclaim.tests_pending]
    · rw [(hrest hp).1, (hrest hp).2]

/-- A row that is left `PENDING`, or not. -/
theorem Left.pending_iff {r : Reclaim} {m : DownloadTaskModel} {c : Option Tested}
    (h : Left r m c) : m.status = .pending ↔ c.any (fun c => c.status = .pending) = true := by
  cases c with
  | none =>
    refine ⟨fun hp => ?_, fun hc => by cases hc⟩
    rw [Left, Reclaim.eligible, hp, Reclaim.tests_pending] at h
    cases h
  | some c => simp [h.1]

/-- **One transaction** leaves what `lastWrite` says. -/
theorem Left.commit {r : Reclaim} {tasks : TaskTable} {id : TaskId} {cs : List Commit}
    (h : ∃ m, tasks.get? id = some m ∧ Left r m (lastWrite id cs)) (c : Commit) :
    ∃ m, (c.apply tasks).get? id = some m ∧ Left r m (lastWrite id (c :: cs)) := by
  obtain ⟨m, hm, hleft⟩ := h
  have hid : m.id = id := (Table.get?_eq_some.mp hm).2
  cases c with
  | claim taskId workerId now =>
    rw [apply, get?_claim, hm, Option.map_some, lastWrite]
    refine ⟨_, rfl, ?_⟩
    by_cases hc : claimable taskId m = true
    · rw [if_pos hc]
      simp only [claimable, Bool.and_eq_true, decide_eq_true_eq] at hc
      rw [if_pos ⟨hc.1.symm.trans hid, hleft.pending_iff.mp hc.2⟩]
      exact ⟨rfl, fun _ => ⟨rfl, rfl⟩⟩
    · rw [if_neg hc, if_neg]
      · exact hleft
      · rintro ⟨rfl, hp⟩
        exact hc (by simp [claimable, hid, hleft.pending_iff.mpr hp])
  | update t =>
    rw [apply, get?_update, hm, Option.map_some, lastWrite, hid]
    refine ⟨_, rfl, ?_⟩
    by_cases ht : t.id = id
    · rw [if_pos ht.symm, if_pos ht]
      exact ⟨rfl, fun _ => ⟨rfl, rfl⟩⟩
    · rw [if_neg (Ne.symm ht), if_neg ht]
      exact hleft
  | reclaimStuck ids =>
    rw [apply, get?_reclaimStuck, hm, Option.map_some, lastWrite, hid]
    refine ⟨_, rfl, ?_⟩
    split
    · exact ⟨rfl, fun h => absurd rfl h⟩
    · exact hleft
  | reclaimBlocked ids =>
    rw [apply, get?_reclaimBlocked, hm, Option.map_some, lastWrite, hid]
    refine ⟨_, rfl, ?_⟩
    split
    · exact ⟨rfl, fun h => absurd rfl h⟩
    · exact hleft

/-! ## A run -/

/-- What holds of a statement that has come to `u`. -/
structure Tracks (r : Reclaim) (cs : List Commit) (u : Reclaiming) : Prop where
  reclaim : u.reclaim = r
  nodup : u.todo.Nodup
  left : ∀ id ∈ u.todo, ∃ m, u.tasks.get? id = some m ∧ Left r m (lastWrite id cs)

theorem tracks_init {s : Reclaiming} (h : system.init s) : Tracks s.reclaim [] s := by
  obtain ⟨⟨limit, hsel⟩, -⟩ := h
  refine ⟨rfl, ?_, fun id hid => selects_row hsel hid⟩
  simp only [selects, Bool.and_eq_true, decide_eq_true_eq] at hsel
  exact hsel.1.1

theorem Tracks.commit {r : Reclaim} {cs : List Commit} {u u' : Reclaiming} (h : Tracks r cs u)
    {c : Commit} (hst : system.step u (.commit c) = some u') : Tracks r (c :: cs) u' := by
  simp only [system, step] at hst
  split at hst
  · cases hst
    exact ⟨h.reclaim, h.nodup, fun id hid => Left.commit (h.left id hid) c⟩
  · cases hst

theorem Tracks.reach {r : Reclaim} {cs : List Commit} {u u' : Reclaiming} (h : Tracks r cs u)
    {id : TaskId} (hst : system.step u (.reach id) = some u') :
    id ∈ u.todo ∧ Tracks r cs u' := by
  simp only [system, step] at hst
  split at hst
  · next hmem =>
    cases hst
    refine ⟨List.contains_iff_mem.mp hmem, h.reclaim, h.nodup.erase id, fun id' hid' => ?_⟩
    obtain ⟨hne, hid'⟩ := h.nodup.mem_erase_iff.mp hid'
    obtain ⟨m, hm, hleft⟩ := h.left id' hid'
    refine ⟨m, ?_, hleft⟩
    rw [Table.get?_modify, hm, Option.map_some, if_neg]
    rw [decide_eq_true_eq, (Table.get?_eq_some.mp hm).2]
    exact hne
  · cases hst

theorem tracks_run {s u : Reclaiming} (h : system.init s) {es : List Event}
    (hrun : system.run s es = some u) : Tracks s.reclaim (commits es) u := by
  induction es using List.reverseRecOn generalizing u with
  | nil => cases hrun; exact tracks_init h
  | append_singleton es e ih =>
    obtain ⟨v, hv, hrun⟩ := System.run_append_eq_some.mp hrun
    obtain ⟨v', hst, hv'⟩ := System.run_cons_eq_some.mp hrun
    cases hv'
    cases e with
    | commit c => simpa [commits] using (ih hv).commit hst
    | reach id => simpa [commits] using ((ih hv).reach hst).2

/-- **The rows are eligible when they are overwritten** exactly when each is left eligible by the
transactions that commit before. -/
theorem actsOnEligible_iff {s s' : Reclaiming} {es : List Event} (h : system.init s)
    (hrun : system.run s es = some s') : ActsOnEligible s es ↔ Undisturbed s.reclaim es := by
  refine forall₃_congr fun pre id hpre => ?_
  obtain ⟨post, rfl⟩ := hpre
  rw [List.append_assoc] at hrun
  obtain ⟨u, hu, hrun⟩ := System.run_append_eq_some.mp hrun
  rw [List.singleton_append] at hrun
  obtain ⟨v, hst, -⟩ := System.run_cons_eq_some.mp hrun
  have htracks := tracks_run h hu
  obtain ⟨m, hm, hleft⟩ := htracks.left id (htracks.reach hst).1
  have heq : (u.tasks.get? id).any s.reclaim.eligible =
      leavesEligible s.reclaim id (commits pre) := by
    rw [hm, Option.any_some, hleft.eligible, leavesEligible]
  rw [← heq]
  exact ⟨fun h => h u hu, fun h u' hu' => by rw [hu] at hu'; cases hu'; exact h⟩

/-! ## Without an interruption -/

/-- The statement in steps is the statement at once, if nothing commits in between. -/
theorem run_reach {s : Reclaiming} (hnodup : s.todo.Nodup) :
    ∃ s', system.run s (s.todo.map .reach) = some s' ∧
      s'.tasks = s.reclaim.run s.tasks s.todo := by
  obtain ⟨r, tasks, todo, locked⟩ := s
  dsimp only at hnodup ⊢
  induction todo generalizing tasks locked with
  | nil => exact ⟨_, rfl, by cases r <;> ext1 <;> simp [Reclaim.run, TaskTable.reclaimStuck,
      TaskTable.reclaimBlocked, Table.modify]⟩
  | cons id ids ih =>
    obtain ⟨hid, hids⟩ := List.nodup_cons.mp hnodup
    obtain ⟨s', hs', htasks⟩ := ih
      (tasks.modify (fun m => m.id = id) r.release r.release_id) (locked ++ [id]) hids
    refine ⟨s', ?_, htasks.trans ?_⟩
    · rw [List.map_cons, System.run_cons]
      simpa [system, step] using hs'
    · have hrow : ∀ m : DownloadTaskModel,
          (if ids.contains (if m.id = id then r.release m else m).id then
            r.release (if m.id = id then r.release m else m)
          else if m.id = id then r.release m else m) =
          if (id :: ids).contains m.id then r.release m else m := by
        intro m
        by_cases e : m.id = id
        · have : ids.contains id = false := by simpa using hid
          simp [e, hid]
        · simp [e]
      ext1
      cases r <;> simpa [Reclaim.run, TaskTable.reclaimStuck, TaskTable.reclaimBlocked,
        Table.modify, Reclaim.release] using fun m _ => hrow m

/-! ## A finished and a freshly claimed task -/

/-- A task whose last heartbeat was at 0. -/
def stale : DownloadTask :=
  { DownloadTask.new "t" "c" with
    status := .running, workerId := some "a", lastHeartbeat := some 0, attempts := 1 }

/-- `reclaim_stuck` at 1000 has selected it. -/
def selected : Reclaiming where
  reclaim := .stuck 700
  tasks := ⟨[stale.toModel], by decide⟩
  todo := ["t"]
  locked := []

theorem selected_init : system.init selected := ⟨⟨20, by decide +kernel⟩, rfl⟩

/-- Nothing commits in between. -/
theorem selected_acts : ActsOnEligible selected [.reach "t"] := by
  obtain ⟨s', hs', -⟩ := run_reach (s := selected) (by decide)
  have hrun : system.run selected [.reach "t"] = some s' := hs'
  refine (actsOnEligible_iff selected_init hrun).mpr fun pre id hpre => ?_
  have hlen := hpre.length_le
  simp only [List.length_append, List.length_cons, List.length_nil] at hlen
  obtain rfl : pre = [] := List.length_eq_zero_iff.mp (by omega)
  rfl

/-- The handler of the task finishes it, or another reclaim has released it and a worker has claimed
it again: the row is set to `PENDING` all the same. -/
theorem restarted :
    let finished : List Event := [.commit (.update { stale with status := .success }), .reach "t"]
    let claimed : List Event :=
      [.commit (.reclaimStuck ["t"]), .commit (.claim "t" "b" 1000), .reach "t"]
    (∃ s', system.run selected finished = some s' ∧
      s'.tasks.rows.map DownloadTaskModel.status = [.pending]) ∧
    (∃ s', system.run selected claimed = some s' ∧
      s'.tasks.rows.map DownloadTaskModel.status = [.pending]) ∧
    ¬ ActsOnEligible selected finished ∧ ¬ ActsOnEligible selected claimed := by
  refine ⟨⟨_, rfl, by decide +kernel⟩, ⟨_, rfl, by decide +kernel⟩, fun h => ?_, fun h => ?_⟩
  · have := h [.commit (.update { stale with status := .success })] "t" (List.prefix_refl _) _ rfl
    revert this
    decide +kernel
  · have := h [.commit (.reclaimStuck ["t"]), .commit (.claim "t" "b" 1000)] "t"
      (List.prefix_refl _) _ rfl
    revert this
    decide +kernel

end Reclaiming

end FileExtractor

import FileExtractor.Application.Answers
import FileExtractor.Worker.Effects

/-!
# Invariants of the task rows

A row is written in two ways: by the SQL of the repository, and as a whole from the copy of any
handler, also of one that has lost its claim. So an invariant of the rows has to hold of every
copy as well. `RowInvariant J` lists what has to be checked (the methods of the entity, the three
`UPDATE`s, a new row), and `RowInvariant.invariant` gives `J` of every row and of every copy in
every reachable state, whatever the processes do.
-/

namespace FileExtractor

open Rel Lts World

/-- `J` is kept by the handlers (`CopyInvariant`) and by the repository. It does not look at the
two columns that `update` leaves. -/
structure RowInvariant (J : Nat → DownloadTask → Prop) : Prop extends CopyInvariant J where
  rename : ∀ {n t} (id : TaskId) (candidateId : String), J n t →
    J n { t with id := id, candidateId := candidateId }
  new : ∀ (id : TaskId) (candidateId : String), J 0 (.new id candidateId)
  claimed : ∀ {m : DownloadTaskModel} (workerId : String) (now : Time), m.status = .pending →
    J 0 m.toDomain → J 0 (m.claimed workerId now).toDomain
  releasedStuck : ∀ {m : DownloadTaskModel}, m.status = .running → J 0 m.toDomain →
    J 0 m.releasedStuck.toDomain
  releasedBlocked : ∀ {m : DownloadTaskModel}, m.status = .blocked → J 0 m.toDomain →
    J 0 m.releasedBlocked.toDomain

/-- `J` of every row and of every copy. -/
structure World.TasksHold (J : Nat → DownloadTask → Prop) (w : World) : Prop where
  rows : ∀ {id m}, w.store.tasks.get? id = some m → J 0 m.toDomain
  copies : ∀ {pid k}, w.procs pid = .handling k → k.handler.Held J

theorem World.tasksHold_fresh {J : Nat → DownloadTask → Prop} (now : Time)
    (bucket : String → Option Bytes) : (fresh now bucket).TasksHold J :=
  ⟨fun h => by simp [fresh, Store.empty] at h, fun h => by simp [fresh] at h⟩

namespace RowInvariant

variable {J : Nat → DownloadTask → Prop} {sha256 : Bytes → Digest} {w w' : World} {l : Label}

theorem step_rows (hJ : RowInvariant J) (hw : w.TasksHold J) (h : Step sha256 w l w') {id : TaskId}
    {m' : DownloadTaskModel} (hm : w'.store.tasks.get? id = some m') : J 0 m'.toDomain := by
  have hr := h.rowStep hm
  generalize hg : w.store.tasks.get? id = g at hr
  cases hr with
  | kept m hn => exact hw.rows hg
  | added pid candidateId fate hl hn => exact hJ.new _ _
  | claimed m pid msg workerId fate hl hf hp hm hs hn => exact hJ.claimed _ _ hs (hw.rows hg)
  | written m pid reply k t hl hp hc ht hn =>
    exact hJ.rename m.id m.candidateId ((hw.copies hp).stored hJ.toCopyInvariant hc).1
  | releasedStuck m pid ids fate hl hf hid hs hn =>
    exact hJ.releasedStuck (DownloadTaskModel.running_of_isStuck hs) (hw.rows hg)
  | releasedBlocked m pid ids fate hl hf hid hs hn =>
    exact hJ.releasedBlocked (DownloadTaskModel.blocked_of_isReleasable hs) (hw.rows hg)

theorem step_copies (hJ : RowInvariant J) (hw : w.TasksHold J) (h : Step sha256 w l w') {pid : Pid}
    {k' : Worker} (hk : w'.procs pid = .handling k') : k'.handler.Held J := by
  cases h.handling hk with
  | kept k lost hp hl hlost => exact hw.copies (k := k) hp
  | begun m workerId row hl hp hrow hs hrow' => trivial
  | resumed k reply c handler hl hp hc hs hr =>
    refine (hw.copies hp).resume hJ.toCopyInvariant (fun t ht => ?_) _ hr
    obtain ⟨-, m, hm, rfl⟩ := Handler.reads hc hs hr ht
    exact hw.rows hm

theorem step (hJ : RowInvariant J) (hw : w.TasksHold J) (h : Step sha256 w l w') : w'.TasksHold J :=
  ⟨hJ.step_rows hw h, hJ.step_copies hw h⟩

/-- **The induction rule for the rows.** -/
theorem invariant (hJ : RowInvariant J) :
    (system sha256).Invariant System.free (World.TasksHold J) := by
  refine System.Reach.induct ?_ fun w l w' _ hw _ hst => ?_
  · rintro w ⟨now, bucket, rfl⟩
    exact tasksHold_fresh now bucket
  · exact hJ.step hw (Step.of_step hst)

end RowInvariant

/-! ## The identity of the copies -/

/-- Every handler works on the task of its message. -/
def World.CopiesOfMessage (w : World) : Prop := ∀ pid k, w.procs pid = .handling k →
  k.handler.Held fun _ t => t.id = k.message.taskId

theorem World.CopiesOfMessage.taskId {w : World} (hw : w.CopiesOfMessage) {pid : Pid} {k : Worker}
    {f : Frame} (hp : w.procs pid = .handling k) (hf : k.handler.frame = some f) :
    f.task.id = k.message.taskId := by
  obtain ⟨n, hid⟩ := (hw pid k hp).of_frame hf
  exact hid

theorem copies_of_message (sha256 : Bytes → Digest) :
    (system sha256).Invariant System.free World.CopiesOfMessage := by
  refine System.Reach.induct ?_ fun w l w' _ hw _ hst pid k' hk => ?_
  · rintro w ⟨now, bucket, rfl⟩ pid k hk
    cases hk
  · cases (Step.of_step hst).handling hk with
    | kept k lost hp hl hlost => exact hw pid k hp
    | begun m workerId row hl hp hrow hs hrow' => trivial
    | resumed k reply c h hl hp hc hs hr =>
      refine (hw pid k hp).resume (.identity fun id _ _ => id = k.message.taskId) (fun t ht => ?_)
        _ hr
      obtain ⟨-, m, hm, rfl⟩ := Handler.reads hc hs hr ht
      exact (Table.get?_eq_some.mp hm).2

end FileExtractor

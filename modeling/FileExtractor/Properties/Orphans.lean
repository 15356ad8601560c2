import FileExtractor.Properties.Messages
import FileExtractor.Properties.Progress

/-!
# Orphaned tasks

The commit of a new or released task and its `send_task` are two steps, and nobody looks at
`PENDING` rows later. A process that stops in between leaves a row without any message, and so does
a `claim` that raises, since its message is acknowledged. Such a row (`Stranded`) stays `PENDING` in
every run, unless the broker delivers a message again that has been acknowledged. A message that is
queued, taken or left to send is enough: the one that a process has taken goes back to the queue if
the process dies.
-/

namespace FileExtractor

open Rel Lts World

namespace World

variable {sha256 : Bytes → Digest} {w w' : World} {l : Label} {id : TaskId}

/-- The message is in the queue, a process has taken it, or a process has it left to send. -/
def Present (w : World) (m : Message) : Prop := w.Carried m ∨ w.Unsent m

/-- A message that is present was so before, or the transaction that makes its row `PENDING` has
just committed. -/
theorem present_of_step {m : Message} (hl : NoRedelivery w l) (h : Step sha256 w l w')
    (hm : w'.Present m) : w.Present m ∨
      ∀ row, w.store.tasks.get? m.taskId = some row → row.status ≠ .pending := by
  rcases hm with hm | hm
  · rcases h.carried hm with hm | ⟨hm, -⟩ | ⟨rfl, -⟩
    · exact .inl (.inl hm)
    · exact .inl (.inr hm)
    · exact absurd hl id
  · rcases h.unsent hm with hm | ⟨-, hnot⟩
    · exact .inl (.inr hm)
    · exact .inr hnot

/-- The row is `PENDING`, and no message of the task is present. -/
structure Stranded (id : TaskId) (w : World) : Prop where
  pending : w.Pending id
  absent : ∀ m, w.Present m → m.taskId ≠ id

/-- **One step**: nobody has a message of the task. -/
theorem Stranded.step (hs : w.Stranded id) (hid : w.CopiesOfMessage) (hl : NoRedelivery w l)
    (h : Step sha256 w l w') : w'.Stranded id := by
  obtain ⟨⟨row, hrow, hpend⟩, hun⟩ := hs
  have untaken : ∀ {pid m}, (w.procs pid).message = some m → m.taskId ≠ id := fun hm =>
    hun _ (.inl (.inr ⟨_, hm⟩))
  constructor
  · obtain ⟨row', hrow'⟩ := h.row_persists hrow
    have hr := h.rowStep hrow'
    rw [hrow] at hr
    cases hr with
    | kept _ hn => exact ⟨row, hrow', hpend⟩
    | claimed _ pid msg workerId fate hl hf hp hmsg hs hn =>
      exact absurd hmsg (untaken (by rw [hp]; rfl))
    | written _ pid reply k t hl hp hc ht hn =>
      have htask := ((hid pid k hp).stored (.identity fun i _ _ => i = k.message.taskId) hc).1
      exact absurd (htask.symm.trans ht) (untaken (by rw [hp]; rfl))
    | releasedStuck _ pid ids fate hl hf hmem hs hn =>
      rw [DownloadTaskModel.running_of_isStuck hs] at hpend; cases hpend
    | releasedBlocked _ pid ids fate hl hf hmem hs hn =>
      rw [DownloadTaskModel.blocked_of_isReleasable hs] at hpend; cases hpend
  · rintro m hm rfl
    rcases present_of_step hl h hm with hm | hnot
    · exact hun m hm rfl
    · exact hnot row hrow hpend

/-- A stranded task stays so. -/
theorem Stranded.run {ls : List Label} (hs : w.Stranded id)
    (hr : (system sha256).Reach System.free w) (hg : (system sha256).Guarded NoRedelivery w ls)
    (hrun : (system sha256).run w ls = some w') : w'.Stranded id := by
  induction ls generalizing w with
  | nil => cases hrun; exact hs
  | cons l ls ih =>
    obtain ⟨v, hst, hrun⟩ := System.run_cons_eq_some.mp hrun
    exact ih (hs.step (copies_of_message sha256 w hr) hg.1 (Step.of_step hst))
      (.step hr trivial hst) (hg.2 v hst) hrun

end World

end FileExtractor

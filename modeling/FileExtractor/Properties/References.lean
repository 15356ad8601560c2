import FileExtractor.Properties.Marks
import FileExtractor.Properties.Messages

/-!
# What refers to a task

`downloaded_files.task_id` is a foreign key of `download_tasks`. It is never violated: a record is
inserted by a handler, the handler has a message, and the message is of a stored task; no step takes
a row of `download_tasks` away. So the insertion of a file needs no case for the constraint.
-/

namespace FileExtractor

open Rel Lts World

namespace World

/-- The task has a row. -/
def Stored (w : World) (id : TaskId) : Prop := ∃ row, w.store.tasks.get? id = some row

variable {sha256 : Bytes → Digest} {w w' : World} {l : Label} {id : TaskId}

theorem Stored.step (hs : w.Stored id) (h : Step sha256 w l w') : w'.Stored id := by
  obtain ⟨row, hrow⟩ := hs
  exact h.row_persists hrow

/-- The task of a handler is stored. -/
theorem MessagesKnown.stored (hw : w.MessagesKnown) {pid : Pid} {k : Worker}
    (hp : w.procs pid = .handling k) : w.Stored k.message.taskId := by
  have hcarried : w.Carried k.message := .inr ⟨pid, by rw [hp]; rfl⟩
  obtain ⟨row, hrow, -⟩ := hw.known (.inl (hw.sent hcarried))
  exact ⟨row, hrow⟩

/-- A record is one from before, or of the task of the handler that inserts it. -/
theorem recorded_step (hw : w.MessagesKnown) (hid : w.CopiesOfMessage) (h : Step sha256 w l w')
    {n : String} (hr : w'.store.Recorded id n) : w.store.Recorded id n ∨ w.Stored id := by
  by_cases hold : w.store.Recorded id n
  · exact .inl hold
  rcases h.effect with same | ⟨pid, reply, k, c, rfl, hp, hc, -, ha⟩
  · exact .inl ((Store.recorded_of_eq same.downloaded).mp hr)
  · obtain ⟨file, fileHash, rfl, -⟩ := Store.apply_newly_recorded ha hold hr
    obtain ⟨f, rest, hk, hf⟩ := Handler.call_addFile hc
    have htask : f.task.id = k.message.taskId := hid.taskId hp (by rw [hk]; rfl)
    exact .inr (hf ▸ htask ▸ hw.stored hp)

end World

/-- A record is of a stored task. -/
theorem recorded_stored (sha256 : Bytes → Digest) :
    (system sha256).Invariant System.free fun w => ∀ id n, w.store.Recorded id n → w.Stored id := by
  refine System.Reach.induct ?_ fun w l w' hr hw _ hst id n hrec => ?_
  · rintro w ⟨now, bucket, rfl⟩ id n hrec
    cases hrec
  · have h := Step.of_step hst
    rcases recorded_step (messages_known sha256 w hr) (copies_of_message sha256 w hr) h hrec with
      hrec | hs
    · exact (hw id n hrec).step h
    · exact hs.step h

/-- **The foreign key holds.** In every reachable state each row of `downloaded_files`, and each row
of `files`, which the handler of a task has stored, is of a task that has a row; and when a handler
is about to insert a record, the task that it refers to is stored already. -/
theorem references_hold (sha256 : Bytes → Digest) :
    (system sha256).Invariant System.free fun w =>
      (∀ d ∈ w.store.downloaded, w.Stored d.taskId) ∧
      (∀ m ∈ w.store.files, ∃ id, w.store.owner m.id = some id ∧ w.Stored id) ∧
      ∀ pid k tid file fileHash, w.procs pid = .handling k →
        k.handler.call k.message = some (.addFile tid file fileHash) → w.Stored tid := by
  intro w hr
  have hdownloaded : ∀ d ∈ w.store.downloaded, w.Stored d.taskId := by
    intro d hd
    have hget : w.store.downloaded.get? (d.taskId, d.fileName) = some d :=
      Table.get?_eq_some.mpr ⟨hd, rfl⟩
    exact recorded_stored sha256 w hr d.taskId d.fileName (Option.isSome_iff_exists.mpr ⟨d, hget⟩)
  refine ⟨hdownloaded, fun m hm => ?_, fun pid k tid file fileHash hp hc => ?_⟩
  · obtain ⟨d, hd, hlink, -⟩ := (files_invariant sha256 w hr).paired.linked hm
    obtain ⟨id, howner, hkey⟩ := Option.map_eq_some_iff.mp hlink
    obtain rfl : id = d.taskId := congrArg Prod.fst hkey
    exact ⟨d.taskId, howner, hdownloaded d hd⟩
  · obtain ⟨f, rest, hk, hf⟩ := Handler.call_addFile hc
    have htask : f.task.id = k.message.taskId :=
      (copies_of_message sha256 w hr).taskId hp (by rw [hk]; rfl)
    exact hf ▸ htask ▸ (messages_known sha256 w hr).stored hp

end FileExtractor

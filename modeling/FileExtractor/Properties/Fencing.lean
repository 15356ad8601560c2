import FileExtractor.Properties.Exclusion

/-!
# Fencing of a lost claim

`update` finds the row by its id alone, so nothing in the database stops a worker whose task was
reclaimed (`write_after_reclaim`): its next write replaces the row of the new holder
(`late_write_changes_row` is such a run, in which a finished task is failed by the worker that had
lost it).

What keeps the rows is the watchdog's assumption that it takes only tasks of ended handlers
(`ReclaimsEnded`). Under it a worker that has lost its claim makes no call any more, and a call
changes no row but the one of its own live claim (`lost_claims_fenced`).
-/

namespace FileExtractor

open Rel Lts World

/-- A handler that has lost its claim has ended before. -/
theorem lost_ended (sha256 : Bytes → Digest) :
    (system sha256).Invariant ReclaimsEnded fun w => ∀ pid k, w.procs pid = .handling k →
      k.lost = true → k.handler.isEnded = true := by
  refine System.Reach.induct ?_ fun w l w' _ hw hok hst pid k' hk hlost' => ?_
  · rintro w ⟨now, bucket, rfl⟩ pid k hk
    cases hk
  · cases (Step.of_step hst).handling hk with
    | kept k lost hp hl hlost =>
      rcases hlost hlost' with h | ⟨q, ids, fate, rfl, hmem⟩
      · exact hw pid k hp h
      · exact hok pid k hp hmem
    | begun m workerId row hl hp hrow hs hrow' => cases hlost'
    | resumed k reply c h hl hp hc hs hr =>
      have he := hw pid k hp hlost'
      rw [(live_of_call hp hc).2] at he; cases he

/-- A row that the call of a handler changes is the row of its own claim. -/
theorem World.Exclusive.changed {sha256 : Bytes → Digest} {w w' : World} {pid : Pid} {k : Worker}
    {reply : Reply} (hw : w.Exclusive) (hid : w.CopiesOfMessage)
    (h : Step sha256 w (.call pid reply) w') (hp : w.procs pid = .handling k) {id : TaskId}
    (hne : w'.store.tasks.get? id ≠ w.store.tasks.get? id) :
    id = k.message.taskId ∧ ∃ m, w.store.tasks.get? id = some m ∧ m.status = .running ∧
      m.workerId = some k.workerId ∧ m.attempts = w.claims id := by
  cases hm' : w'.store.tasks.get? id with
  | none =>
    -- no row is deleted
    cases hm : w.store.tasks.get? id with
    | none => rw [hm, hm'] at hne; exact absurd rfl hne
    | some m =>
      obtain ⟨m', hm''⟩ := h.row_persists hm
      rw [hm'] at hm''; cases hm''
  | some m' =>
    have hr := h.rowStep hm'
    rw [hm'] at hne
    generalize hg : w.store.tasks.get? id = g at hr hne
    cases hr with
    | kept m hn => exact absurd rfl hne
    | written m pid' reply' k' t hl hp' hc ht hn =>
      cases hl
      rw [hp] at hp'; cases hp'
      obtain ⟨hid', ho, -⟩ := hw.written (hid pid k hp) (ht ▸ hg) hp hc
      exact ⟨(hid'.trans ht).symm, m, rfl, ho.running, ho.worker, hw.counted hg⟩
    | added pid' candidateId fate hl hn => cases hl
    | claimed m pid' msg workerId fate hl hf hp' hmsg hs hn => cases hl
    | releasedStuck m pid' ids fate hl hf hmem hs hn => cases hl
    | releasedBlocked m pid' ids fate hl hf hmem hs hn => cases hl

/-- **Lost claims are fenced** while `reclaim_stuck` takes only tasks of ended handlers: no call of
a worker that has lost its claim changes a row, and a row that any call changes is `RUNNING` under
the worker of the call, by its newest claim. -/
theorem lost_claims_fenced (sha256 : Bytes → Digest) :
    (system sha256).Keeps ReclaimsEnded fun w l w' => ∀ pid reply k, l = .call pid reply →
      w.procs pid = .handling k →
      (k.lost = true → w'.store.tasks = w.store.tasks) ∧
      ∀ id, w'.store.tasks.get? id ≠ w.store.tasks.get? id →
        id = k.message.taskId ∧ ∃ m, w.store.tasks.get? id = some m ∧ m.status = .running ∧
          m.workerId = some k.workerId ∧ m.attempts = w.claims id := by
  intro w l w' hr hok hst pid reply k hl hp
  have h := Step.of_step hst
  subst hl
  refine ⟨fun hlost => ?_, fun id hne => ?_⟩
  · have he := lost_ended sha256 w hr pid k hp hlost
    obtain ⟨c, -, hc, -⟩ := h.called hp
    rw [(live_of_call hp hc).2] at he; cases he
  · exact (exclusive_invariant sha256 w hr).changed (copies_of_message sha256 w hr.toFree) h hp hne

/-! ## A write of a worker that has lost its claim -/

/-- The write itself is not fenced: a row that was returned to `PENDING` is changed by every write
of its earlier holder that takes effect. -/
theorem write_after_reclaim (sha256 : Bytes → Digest) :
    (system sha256).Keeps System.free fun w l w' => ∀ pid reply k t m, l = .call pid reply →
      w.procs pid = .handling k → (∀ e, reply ≠ .refused e) →
      k.handler.call k.message = some (.updateTask t) →
      w.store.tasks.get? k.message.taskId = some m → m.status = .pending →
      w'.store.tasks.get? k.message.taskId ≠ some m := by
  intro w l w' hr _ hst pid reply k t m hl hp heff hc hm hs
  have h := Step.of_step hst
  subst hl
  obtain ⟨c, handler, hc', hserve, -⟩ := h.called hp
  rw [hc] at hc'; cases hc'
  have ha : w.store.apply k.message.taskId (.updateTask t) = some w'.store :=
    (Store.serve_cases hserve).resolve_left fun ⟨_, e, he⟩ => heff e he
  obtain ⟨hid, hne⟩ := (copies_of_message sha256 w hr pid k hp).stored
    (.identity fun id _ _ => id = k.message.taskId) hc
  rw [← Option.some.inj ha]
  show (w.store.tasks.update t).get? k.message.taskId ≠ some m
  rw [TaskTable.get?_update, hm]
  simp only [Option.map_some, (Table.get?_eq_some.mp hm).2, hid, if_true, ne_eq,
    Option.some.injEq]
  intro he
  -- no handler writes `PENDING`
  have : t.status = .pending := (congrArg DownloadTaskModel.status he).trans hs
  exact hne this

/-- Worker `a` (process 1) is still waiting for its first names when its heartbeat is five minutes
old. The watchdog (process 3) takes the task, worker `b` (process 2) runs it to `SUCCESS`, and then
the request of `a` fails. -/
def lateWrite : List Label :=
  let m : Message := ⟨"t", none⟩
  let row := (DownloadTask.new "t" "").toModel
  let taskOfA := row.claimed "a" 0
  let taskOfB := taskOfA.releasedStuck.claimed "b" 301
  [.start 0 "t" none .done, .send 0, .deliver 1 m "a", .claim 1 .done,
    .call 1 (.done (.task (some taskOfA.toDomain))), .tick 301,
    .reclaimStuck 3 ["t"] .done, .send 3, .deliver 2 m "b", .claim 2 .done,
    .call 2 (.done (.task (some taskOfB.toDomain))), .call 2 (.done (.names [])),
    .call 2 (.done .done), .call 1 (.refused (.other "timeout"))]

/-- The next call of process 1 is the one of a lost claim, and it takes the row from `SUCCESS` to
`FAILED`. -/
def lateWriteCheck (sha256 : Bytes → Digest) (w : World) : Bool :=
  match w.procs 1, w.step sha256 (.call 1 (.done .done)) with
  | .handling k, some w' => k.lost &&
    (w.store.tasks.get? "t").any (fun m => m.status = .success) &&
    (w'.store.tasks.get? "t").any (fun m => m.status = .failed)
  | _, _ => false

theorem late_write_changes_row :
    ¬ (system fun _ => 0).Keeps System.free fun w l w' => ∀ pid reply k, l = .call pid reply →
      w.procs pid = .handling k → k.lost = true → w'.store.tasks = w.store.tasks := by
  intro hkeeps
  obtain ⟨w, hr, hcheck⟩ := System.reach_of_check (S := system fun _ => 0) lateWrite
    (lateWriteCheck fun _ => 0) ⟨0, fun _ => none, rfl⟩ (by decide +kernel)
  unfold lateWriteCheck at hcheck
  split at hcheck
  · next k w' hp hst =>
    simp only [Bool.and_eq_true] at hcheck
    obtain ⟨⟨hlost, hs⟩, hs'⟩ := hcheck
    have hsame : w'.store.tasks = w.store.tasks :=
      hkeeps w (.call 1 (.done .done)) w' hr trivial hst 1 _ k rfl hp hlost
    rw [hsame] at hs'
    cases hg : w.store.tasks.get? "t" with
    | none => rw [hg] at hs; cases hs
    | some m =>
      rw [hg] at hs hs'
      simp only [Option.any_some, decide_eq_true_eq] at hs hs'
      rw [hs] at hs'; cases hs'
  · cases hcheck

end FileExtractor

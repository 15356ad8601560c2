import FileExtractor.Application.Answers
import FileExtractor.Properties.Marks

/-!
# A file is stored once

`downloaded_file_exists` is a check before the upload, in a transaction of its own, so by itself it
says nothing of the time of the insertion. With one live handler for a task (`Exclusive`) nobody
else can record the name in between: at the upload and at the insertion the name is still new
(`StoresNew`), and the `UNIQUE(task_id, file_name)` of the insertion is never violated. A name that
has a record is not uploaded again until a cleanup deletes the record.
-/

namespace FileExtractor

open Rel Lts World

namespace Handler

variable {sha256 : Bytes → Digest} {now : Time} {h h' : Handler} {a : Except Exn Answer}
  {n : String}

theorem storing_closing (hc : h.isClosing = true) : h.storing = none := by
  cases h <;> first | rfl | cases hc

theorem isEnded_of_storing (hn : h.storing = some n) : h.isEnded = false := by
  cases h <;> first | rfl | cases hn

/-- A name is stored after the check has not found it, or it is the one of the upload. -/
theorem Next.storing (hn : Next sha256 now h a h') (hs : h'.storing = some n) :
    (∃ f extracted rest, h = checkExists f extracted rest ∧ a = .ok (.found false) ∧
      n = extracted.filename) ∨
    ∃ f extracted rest fileId, h = upload f extracted rest ∧ a = .ok (.stored fileId) ∧
      n = extracted.filename := by
  cases hn with
  | closed hc => rw [storing_closing hc] at hs; cases hs
  | missed f extracted rest => cases hs; exact .inl ⟨f, extracted, rest, rfl, rfl, rfl⟩
  | uploaded f extracted rest fileId =>
    cases hs; exact .inr ⟨f, extracted, rest, fileId, rfl, rfl, rfl⟩
  | _ => cases hs

end Handler

namespace World

variable {sha256 : Bytes → Digest} {w w' : World} {l : Label} {id : TaskId} {n : String}

/-- No handler stores a file that its task has a record of. -/
def StoresNew (w : World) : Prop :=
  ∀ pid k n, w.procs pid = .handling k → k.handler.storing = some n →
    ¬ w.store.Recorded k.message.taskId n

/-- The step is no upload and no insertion of the file of the task. -/
def StoresNot (id : TaskId) (n : String) (w : World) (l : Label) : Prop :=
  ∀ pid reply k, l = .call pid reply → w.procs pid = .handling k → k.message.taskId = id →
    k.handler.storing ≠ some n

/-- The step does not delete the record of the file of the task. -/
def DeletesNot (id : TaskId) (n : String) (w : World) (l : Label) : Prop :=
  ∀ pid reply k f e file todo, l = .call pid reply → w.procs pid = .handling k →
    k.handler = .deleteRows f e file todo → k.message.taskId = id → file.filename ≠ n

/-- A record that is new is the one of the handler that inserts it. -/
theorem newly_recorded (hid : w.CopiesOfMessage) (h : Step sha256 w l w')
    (hold : ¬ w.store.Recorded id n) (hnew : w'.store.Recorded id n) :
    ∃ pid reply k, l = .call pid reply ∧ w.procs pid = .handling k ∧ k.message.taskId = id ∧
      k.handler.isEnded = false := by
  rcases h.effect with same | ⟨pid, reply, k, c, rfl, hp, hc, -, ha⟩
  · exact absurd ((Store.recorded_of_eq same.downloaded).mp hnew) hold
  obtain ⟨file, fileHash, rfl, rfl⟩ := Store.apply_newly_recorded ha hold hnew
  obtain ⟨f, rest, hk, rfl⟩ := Handler.call_addFile hc
  exact ⟨pid, reply, k, rfl, hp, (hid.taskId hp (by rw [hk]; rfl)).symm, by rw [hk]; rfl⟩

/-- A record stays in a step that does not delete it. -/
theorem keeps_recorded (hid : w.CopiesOfMessage) (h : Step sha256 w l w')
    (hr : w.store.Recorded id n) (hd : w.DeletesNot id n l) : w'.store.Recorded id n := by
  rcases h.effect with same | ⟨pid, reply, k, c, rfl, hp, hc, -, ha⟩
  · exact (Store.recorded_of_eq same.downloaded).mpr hr
  refine Store.apply_keeps_recorded ha hr fun file hdel hn => ?_
  subst hdel
  obtain ⟨f, e, todo, hk, ht⟩ := Handler.call_deleteFile hc
  have htask := hid.taskId hp (f := f) (by rw [hk]; rfl)
  exact hd pid reply k f e file todo rfl hp hk (htask.symm.trans ht.symm) hn.symm

/-- **One step**: the check has read that there is no record, and nobody else inserts one. -/
theorem StoresNew.step (hw : w.StoresNew) (hx : w.Exclusive) (hid : w.CopiesOfMessage)
    (h : Step sha256 w l w') : w'.StoresNew := by
  intro pid k' n hk hn hrec
  cases h.handling hk with
  | begun m workerId row hl hp hrow hs hrow' => cases hn
  | kept k lost hp hl hlost =>
    obtain ⟨pid', reply, k₂, rfl, hp₂, ht, he⟩ := newly_recorded hid h (hw pid k n hp hn) hrec
    have : pid' = pid := hx.unique ⟨hp₂, he⟩ ⟨hp, Handler.isEnded_of_storing hn⟩ ht
    exact hl reply (this ▸ rfl)
  | resumed k reply c handler hl hp hc hs hr =>
    rcases (Handler.resume_next hr).storing hn with
      ⟨f, extracted, rest, hk₀, ha, rfl⟩ | ⟨f, extracted, rest, fileId, hk₀, ha, rfl⟩
    · obtain rfl := Reply.of_seen ha
      rw [hk₀] at hc
      cases hc
      obtain ⟨hperm, hap⟩ := Store.serve_done hs
      simp only [Store.permits, decide_eq_true_eq, hid.taskId hp (f := f) (by rw [hk₀]; rfl)]
        at hperm
      rw [← Option.some.inj hap, Store.Recorded, ← hperm] at hrec
      cases hrec
    · obtain rfl := Reply.of_seen ha
      rw [hk₀] at hc
      cases hc
      rw [← Option.some.inj (Store.serve_done hs).2] at hrec
      exact hw pid k _ hp (by rw [hk₀]; rfl) hrec

theorem storesNew_invariant (sha256 : Bytes → Digest) :
    (system sha256).Invariant ReclaimsEnded StoresNew := by
  refine System.Reach.induct ?_ fun w l w' hr hw _ hst => ?_
  · rintro w ⟨now, bucket, rfl⟩ pid k n hk
    cases hk
  · exact hw.step (exclusive_invariant sha256 w hr) (copies_of_message sha256 w hr.toFree)
      (Step.of_step hst)

end World

/-- **A file is stored once.** While `reclaim_stuck` takes only tasks of ended handlers: in every
reachable state in which a handler is about to insert a file there is no row with its task and its
name, so that the insertion violates no `UNIQUE(task_id, file_name)`. And from a reachable state in
which a task has a record of a name, in every run without a deletion of this record, no handler of
the task uploads or inserts the name again, and the record stays. -/
theorem stored_once (sha256 : Bytes → Digest) (w : World)
    (hr : (system sha256).Reach ReclaimsEnded w) :
    (∀ pid k f file fileHash rest, w.procs pid = .handling k →
      k.handler = .record f file fileHash rest →
      w.store.downloaded.get? (f.task.id, file.filename) = none) ∧
    ∀ id n w' ls, w.store.Recorded id n →
      (system sha256).Guarded (fun w l => ReclaimsEnded w l ∧ w.DeletesNot id n l) w ls →
      (system sha256).run w ls = some w' →
      (system sha256).Guarded (StoresNot id n) w ls ∧ w'.store.Recorded id n := by
  constructor
  · intro pid k f file fileHash rest hp hk
    have hnew := storesNew_invariant sha256 w hr pid k file.filename hp (by rw [hk]; rfl)
    rw [← (copies_of_message sha256 w hr.toFree).taskId hp (f := f) (by rw [hk]; rfl)] at hnew
    simpa [Store.Recorded, DownloadedTable.exists_] using hnew
  · intro id n w' ls
    induction ls generalizing w with
    | nil => intro hrec _ hrun; cases hrun; exact ⟨trivial, hrec⟩
    | cons l ls ih =>
      intro hrec hg hrun
      obtain ⟨v, hst, hrun⟩ := System.run_cons_eq_some.mp hrun
      have hkept := keeps_recorded (copies_of_message sha256 w hr.toFree) (Step.of_step hst) hrec
        hg.1.2
      obtain ⟨hrest, hlast⟩ := ih v (.step hr hg.1.1 hst) hkept (hg.2 v hst) hrun
      refine ⟨⟨fun pid reply k hl hp ht hs => ?_, fun v' hv' => ?_⟩, hlast⟩
      · exact storesNew_invariant sha256 w hr pid k n hp hs (ht ▸ hrec)
      · rw [hst] at hv'; cases hv'; exact hrest

/-- A run that ends after the insertion of the file `x`. -/
def insertsOne : List Label :=
  let task := ((DownloadTask.new "t" "").toModel.claimed "a" 0).toDomain
  [.start 0 "t" none .done, .send 0, .deliver 1 ⟨"t", none⟩ "a", .claim 1 .done,
    .call 1 (.done (.task (some task))), .call 1 (.done (.names ["x"])), .call 1 (.done .done),
    .call 1 (.done (.archive [⟨"x", [1]⟩])), .call 1 (.done .next), .call 1 (.done .done),
    .call 1 (.done (.found false)), .call 1 (.done (.stored 1)), .call 1 (.done .done)]

/-- The record outlives its handler. -/
theorem inserted_stored_once : ∃ w w',
    (system fun _ => 0).run (fresh 0 fun _ => none) insertsOne = some w ∧
    (system fun _ => 0).run w [.crash 1, .tick 600] = some w' ∧ w'.store.Recorded "t" "x" := by
  obtain ⟨w, h₁, hp⟩ := (Option.any_eq_true ..).mp
    (by decide +kernel : ((system fun _ => 0).run (fresh 0 fun _ => none) insertsOne).any (fun w =>
      w.store.downloaded.exists_ "t" "x" &&
        ((system fun _ => 0).run w [.crash 1, .tick 600]).isSome) = true)
  rw [Bool.and_eq_true] at hp
  obtain ⟨w', h₂⟩ := Option.isSome_iff_exists.mp hp.2
  have hr := System.Reach.run (S := system fun _ => 0) (.init ⟨0, _, rfl⟩)
    (guarded_of_no_reclaim (by decide)) h₁
  refine ⟨w, w', h₁, h₂, ((stored_once _ w hr).2 "t" "x" w' _ hp.1 ?_ h₂).2⟩
  refine System.guarded_of_forall fun l hl s => ⟨?_, fun pid reply k f e file todo e' => ?_⟩
  all_goals
    simp only [List.mem_cons, List.not_mem_nil, or_false] at hl
    rcases hl with rfl | rfl
  · trivial
  · trivial
  · cases e'
  · cases e'

end FileExtractor

import FileExtractor.Properties.Statements

/-!
# The progress counters never cross

`Counted n t`: of the received names at least `n` are not processed. `_run` keeps it with `n` the
number of the names that it still has to process, so giving these names back never goes below
zero.

An `update` writes the columns in which the copy differs from what its `SELECT` has read, so the two
counters of a row may come from two handlers (`counters_crossed`). They are those of one copy if no
other transaction has changed the counters in between (`CountersKept`).
-/

namespace FileExtractor

open Lts World

/-- The counters of a task with `n` outstanding names. -/
def DownloadTask.Counted (n : Nat) (t : DownloadTask) : Prop :=
  0 ≤ t.processedFiles ∧ t.processedFiles + n ≤ t.receivedFiles

theorem DownloadTask.counted_invariant : RowInvariant DownloadTask.Counted where
  weaken h := ⟨h.1, by have := h.2; omega⟩
  heartbeat _ _ h := h
  received k _ h := ⟨h.1, by have := h.2; simp only [Counted] at *; omega⟩
  decreased _ h := ⟨h.1, by have := h.1; have := h.2; simp only [decreaseReceived]; omega⟩
  processed k _ h := ⟨by have := h.1; simp only; omega, by have := h.2; simp only; omega⟩
  completed _ _ h := ⟨h.1, by have := h.2; simp only; omega⟩
  failed _ _ _ h := ⟨h.1, by have := h.2; simp only; omega⟩
  blocked _ _ _ _ h := ⟨h.1, by have := h.2; simp only; omega⟩
  rename _ _ h := h
  new _ _ := ⟨Int.le_refl 0, Int.le_refl 0⟩
  claimed _ _ _ h := h
  releasedStuck _ h := h
  releasedBlocked _ h := h

namespace StatementWorld

/-- When the `UPDATE` of an `update` is run, the counters of the row are as its `SELECT` has read
them. -/
def CountersKept (s : StatementWorld) : StatementLabel → Prop
  | .other (.step (.call pid reply)) => ∀ t r m, s.split.world.updating pid = some t →
    s.split.read pid = some (some r) → (∀ e, reply ≠ .refused e) →
    s.split.world.store.tasks.get? t.id = some m →
    m.receivedFiles = r.receivedFiles ∧ m.processedFiles = r.processedFiles
  | _ => True

theorem counted_statements (sha256 : Bytes → Digest) :
    StatementInvariant sha256 CountersKept (World.TasksHold DownloadTask.Counted) where
  fresh := tasksHold_fresh
  step hw h := DownloadTask.counted_invariant.step hw h
  commit {s pid _ k t _ _} hw hok hp hc ht hr := by
    refine tasksHold_commit DownloadTask.counted_invariant.toCopyInvariant hw hp hc ht hr
      fun r m hreply hread hm hj => ?_
    obtain ⟨hreceived, hprocessed⟩ :=
      hok t r m (updating_eq_some.mpr ⟨k, hp, hc⟩) hread hreply hm
    have hcounters : (r.flush t m).receivedFiles = t.receivedFiles ∧
        (r.flush t m).processedFiles = t.processedFiles := by
      simp [DownloadTaskModel.flush, hreceived, hprocessed]
    simpa [DownloadTask.Counted, DownloadTaskModel.toDomain, hcounters] using hj
  update {_ _ r _ _} hw _ _ _ _ := by
    -- a release leaves the counters, whatever the status is
    refine tasksHold_reclaimed hw fun id _ m _ hj => ?_
    cases r <;> exact hj

end StatementWorld

/-- **The counters of every row**, and of every copy that has a batch in hand, in every run in which
no transaction changes the counters of a row between the two statements of an `update` of it. The
frame of such a handler is the one that its `except` clauses give the outstanding names back from,
and there the `max(0, ..)` of `decrease_received` has no effect. -/
theorem counters_never_cross (sha256 : Bytes → Digest) :
    (StatementWorld.statements sha256).Invariant StatementWorld.CountersKept fun s =>
      (∀ m ∈ s.split.world.store.tasks,
        0 ≤ m.processedFiles ∧ m.processedFiles ≤ m.receivedFiles) ∧
      ∀ pid k f, s.split.world.procs pid = .handling k → k.handler.batchFrame = some f →
        let n : Int := f.batch.length + f.pending.length
        0 ≤ f.task.receivedFiles - n ∧
          (f.task.decreaseReceived n).receivedFiles = f.task.receivedFiles - n := by
  intro s hs
  have h := (StatementWorld.counted_statements sha256).invariant s hs
  refine ⟨fun m hm => ?_, fun pid k f hp hf => ?_⟩
  · have hj := h.rows (Rel.Table.get?_mem hm)
    exact ⟨hj.1, by simpa [DownloadTaskModel.toDomain] using hj.2⟩
  · obtain ⟨-, h0, hle⟩ := (h.copies hp).batch hf
    have hn : 0 ≤ f.task.receivedFiles - (f.batch.length + f.pending.length : Int) := by omega
    exact ⟨hn, by simp only [DownloadTask.decreaseReceived]; omega⟩

/-- Two handlers of one task. Worker `a` has processed the name `x` and has read the row, where one
name is received. Before its `UPDATE` worker `b`, which has claimed the task after a reclaim, fails
and writes its own counters, which are zero. -/
def failedInBetween : List StatementLabel :=
  let row := (DownloadTask.new "t" "").toModel.claimed "a" 0
  let row' := row.releasedStuck.claimed "b" 301
  [.other (.step (.start 0 "t" none .done)), .other (.step (.send 0)),
    .other (.step (.deliver 1 ⟨"t", none⟩ "a")), .other (.step (.claim 1 .done)),
    .other (.step (.call 1 (.done (.task (some row.toDomain))))), .other (.step (.tick 301)),
    .subselect 3 .stuck ["t"], .update 3 .done, .other (.step (.send 3)),
    .other (.step (.deliver 2 ⟨"t", none⟩ "b")), .other (.step (.claim 2 .done)),
    .other (.step (.call 2 (.done (.task (some row'.toDomain))))),
    .other (.step (.call 1 (.done (.names ["x"])))), .other (.select 1),
    .other (.step (.call 1 (.done .done))), .other (.step (.call 1 (.done (.archive [])))),
    .other (.step (.call 1 (.done .next))), .other (.step (.call 1 (.done .done))),
    .other (.select 1), .other (.step (.call 2 (.refused (.other "timeout")))),
    .other (.select 2), .other (.step (.call 2 (.done .done))),
    .other (.step (.call 1 (.done .done)))]

/-- **The counters cross**: no name is received and one is processed. -/
theorem counters_crossed :
    ¬ (StatementWorld.statements fun _ => 0).Invariant System.free fun s =>
      ∀ m ∈ s.split.world.store.tasks, m.processedFiles ≤ m.receivedFiles := by
  intro hinv
  obtain ⟨s, hs, hcheck⟩ := System.reach_of_check failedInBetween (fun s =>
      (s.split.world.store.tasks.get? "t").any fun m =>
        m.receivedFiles = 0 && m.processedFiles = 1)
    (StatementWorld.init_empty fun _ => 0) (by decide +kernel)
  obtain ⟨m, hm, hcheck⟩ := (Option.any_eq_true ..).mp hcheck
  simp only [Bool.and_eq_true, decide_eq_true_eq] at hcheck
  have hle := hinv s hs m (Rel.Table.get?_eq_some.mp hm).1
  omega

end FileExtractor

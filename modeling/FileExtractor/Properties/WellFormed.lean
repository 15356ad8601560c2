import FileExtractor.Properties.Statements

/-!
# The stored rows are well-formed

Which columns of a task row are set is decided by its status (`WellFormed`). A stale copy may be
written over any row at any time, so the copies are well-formed too, and the invariant adds that
`attempts` is never negative: a `PENDING` row has been claimed any number of times.

It needs that nothing comes between the two statements of a write. A reclaim releases every row of
its sub-select, also one that has become `SUCCESS`: the row is `PENDING` again and keeps its
`finished_at`. And the `UPDATE` of a stale copy writes some columns over a row that it has not read,
which leaves a mixture (`finished_row_released`).
-/

namespace FileExtractor

open Lts World

/-- The columns that a status sets and clears. -/
structure DownloadTaskModel.WellFormed (m : DownloadTaskModel) : Prop where
  running : m.status = .running →
    m.workerId.isSome ∧ m.startedAt.isSome ∧ m.lastHeartbeat.isSome
  blocked : m.status = .blocked ↔ m.blockedUntil.isSome
  finished : m.status = .success ∨ m.status = .failed ↔ m.finishedAt.isSome
  pending : m.status = .pending → m.workerId = none
  attempts : m.status = .running ∨ m.status = .blocked ∨ m.status = .success → 1 ≤ m.attempts

/-- Well-formed columns, claimed at least zero times. -/
def DownloadTask.Columns (_n : Nat) (t : DownloadTask) : Prop :=
  t.toModel.WellFormed ∧ 0 ≤ t.attempts

theorem DownloadTask.columns_invariant : RowInvariant DownloadTask.Columns where
  weaken h := h
  heartbeat now hs h := by
    obtain ⟨⟨h1, h2, h3, h4, h5⟩, h0⟩ := h
    exact ⟨⟨fun e => ⟨(h1 e).1, (h1 e).2.1, rfl⟩, h2, h3, h4, h5⟩, h0⟩
  received k hs h := by
    obtain ⟨⟨h1, h2, h3, h4, h5⟩, h0⟩ := h
    exact ⟨⟨h1, h2, h3, h4, h5⟩, h0⟩
  decreased hs h := by
    obtain ⟨⟨h1, h2, h3, h4, h5⟩, h0⟩ := h
    exact ⟨⟨h1, h2, h3, h4, h5⟩, h0⟩
  processed k hs h := by
    obtain ⟨⟨h1, h2, h3, h4, h5⟩, h0⟩ := h
    exact ⟨⟨h1, h2, h3, h4, h5⟩, h0⟩
  completed now hs h := by
    obtain ⟨⟨h1, h2, h3, h4, h5⟩, h0⟩ := h
    have hb := h2.not.mp (by simp [toModel, hs])
    exact ⟨⟨by simp [toModel], by simpa [toModel] using hb, by simp [toModel],
      by simp [toModel], fun _ => h5 (.inl hs)⟩, h0⟩
  failed error now hs h := by
    obtain ⟨⟨h1, h2, h3, h4, h5⟩, h0⟩ := h
    have hb := h2.not.mp (by rcases hs with hs | hs <;> simp [toModel, hs])
    exact ⟨⟨by simp [toModel], by simpa [toModel] using hb, by simp [toModel],
      by simp [toModel], by simp [toModel]⟩, h0⟩
  blocked until_ reason error hs h := by
    obtain ⟨⟨h1, h2, h3, h4, h5⟩, h0⟩ := h
    have hf := h3.not.mp (by simp [toModel, hs])
    exact ⟨⟨by simp [toModel], by simp [toModel], by simpa [toModel] using hf,
      by simp [toModel], fun _ => h5 (.inl hs)⟩, h0⟩
  rename id candidateId h := by
    obtain ⟨⟨h1, h2, h3, h4, h5⟩, h0⟩ := h
    exact ⟨⟨h1, h2, h3, h4, h5⟩, h0⟩
  new id candidateId := by
    refine ⟨⟨?_, ?_, ?_, ?_, ?_⟩, ?_⟩ <;> simp [toModel, new]
  claimed workerId now hs h := by
    obtain ⟨⟨h1, h2, h3, h4, h5⟩, h0⟩ := h
    have hf := h3.not.mp (by simp [toModel, DownloadTaskModel.toDomain, hs])
    simp only [DownloadTaskModel.toDomain] at h0
    refine ⟨⟨fun _ => ⟨rfl, rfl, rfl⟩, ?_, ?_, ?_, fun _ => ?_⟩, ?_⟩
    · simp [toModel, DownloadTaskModel.toDomain, DownloadTaskModel.claimed]
    · simpa [toModel, DownloadTaskModel.toDomain, DownloadTaskModel.claimed] using hf
    · simp [toModel, DownloadTaskModel.toDomain, DownloadTaskModel.claimed]
    · simp only [toModel, DownloadTaskModel.toDomain, DownloadTaskModel.claimed]; omega
    · simp only [DownloadTaskModel.toDomain, DownloadTaskModel.claimed]; omega
  releasedStuck hs h := by
    obtain ⟨⟨h1, h2, h3, h4, h5⟩, h0⟩ := h
    have hf := h3.not.mp (by simp [toModel, DownloadTaskModel.toDomain, hs])
    refine ⟨⟨?_, ?_, ?_, fun _ => rfl, ?_⟩, h0⟩
    · simp [toModel, DownloadTaskModel.toDomain, DownloadTaskModel.releasedStuck]
    · simp [toModel, DownloadTaskModel.toDomain, DownloadTaskModel.releasedStuck]
    · simpa [toModel, DownloadTaskModel.toDomain, DownloadTaskModel.releasedStuck] using hf
    · simp [toModel, DownloadTaskModel.toDomain, DownloadTaskModel.releasedStuck]
  releasedBlocked hs h := by
    obtain ⟨⟨h1, h2, h3, h4, h5⟩, h0⟩ := h
    have hf := h3.not.mp (by simp [toModel, DownloadTaskModel.toDomain, hs])
    refine ⟨⟨?_, ?_, ?_, fun _ => rfl, ?_⟩, h0⟩
    · simp [toModel, DownloadTaskModel.toDomain, DownloadTaskModel.releasedBlocked]
    · simp [toModel, DownloadTaskModel.toDomain, DownloadTaskModel.releasedBlocked]
    · simpa [toModel, DownloadTaskModel.toDomain, DownloadTaskModel.releasedBlocked] using hf
    · simp [toModel, DownloadTaskModel.toDomain, DownloadTaskModel.releasedBlocked]

/-- **Every stored row is well-formed**, in every state of every run in which nothing comes between
the two statements of a write: no `UPDATE` of a copy finds another row than its `SELECT`, and no
reclaim a row of another status than its sub-select. -/
theorem rows_wellFormed (sha256 : Bytes → Digest) :
    (StatementWorld.statements sha256).Invariant StatementWorld.Undisturbed fun s =>
      ∀ m ∈ s.split.world.store.tasks, m.WellFormed :=
  fun s hs _ hm =>
    ((DownloadTask.columns_invariant.statements sha256).invariant s hs).rows
      (Rel.Table.get?_mem hm) |>.1

namespace StatementWorld

variable {s : StatementWorld} {l : StatementLabel}

/-- A check of `UpdatesUndisturbed`. -/
def updatesCheck (s : StatementWorld) : StatementLabel → Bool
  | .other (.step (.call pid _)) =>
    match s.split.world.updating pid, s.split.read pid with
    | some t, some r => r = s.split.world.store.tasks.get? t.id
    | _, _ => true
  | _ => true

/-- A check of `ReclaimsUndisturbed`. -/
def reclaimsCheck (s : StatementWorld) : StatementLabel → Bool
  | .update pid _ => (s.selected pid).all fun p =>
    p.2.all fun id => (s.split.world.store.tasks.get? id).all fun m => m.status = p.1.status
  | _ => true

theorem updatesUndisturbed_of_check (h : s.updatesCheck l = true) : s.UpdatesUndisturbed l := by
  cases l with
  | other l =>
    cases l with
    | step l =>
      cases l with
      | call pid reply =>
        intro t r ht hr _
        simpa [updatesCheck, ht, hr] using h
      | _ => trivial
    | _ => trivial
  | _ => trivial

theorem reclaimsUndisturbed_of_check (h : s.reclaimsCheck l = true) :
    s.ReclaimsUndisturbed l := by
  cases l with
  | update pid fate =>
    intro r ids hsel _ id hid m hm
    simp only [reclaimsCheck, hsel, Option.all_some, List.all_eq_true] at h
    simpa [hm] using h id hid
  | _ => trivial

end StatementWorld

/-- The sub-select of `reclaim_stuck` reads the task of a worker that lives. The worker commits its
`SUCCESS`, and then the `UPDATE` is run. -/
def finishedInBetween : List StatementLabel :=
  let row := (DownloadTask.new "t" "").toModel.claimed "a" 0
  [.other (.step (.start 0 "t" none .done)), .other (.step (.send 0)),
    .other (.step (.deliver 1 ⟨"t", none⟩ "a")), .other (.step (.claim 1 .done)),
    .other (.step (.call 1 (.done (.task (some row.toDomain))))), .other (.step (.tick 301)),
    .subselect 2 .stuck ["t"], .other (.step (.call 1 (.done (.names [])))),
    .other (.select 1), .other (.step (.call 1 (.done .done))), .update 2 .done]

/-- The task of worker `a` is reclaimed while it lives, and its next `update` reads the row then.
Worker `b` takes the task to `SUCCESS`, and then the `UPDATE` of worker `a` is run. -/
def supersededInBetween : List StatementLabel :=
  let row := (DownloadTask.new "t" "").toModel.claimed "a" 0
  let row' := row.releasedStuck.claimed "b" 301
  [.other (.step (.start 0 "t" none .done)), .other (.step (.send 0)),
    .other (.step (.deliver 1 ⟨"t", none⟩ "a")), .other (.step (.claim 1 .done)),
    .other (.step (.call 1 (.done (.task (some row.toDomain))))), .other (.step (.tick 301)),
    .subselect 3 .stuck ["t"], .update 3 .done, .other (.step (.call 1 (.done (.names ["x"])))),
    .other (.select 1), .other (.step (.send 3)), .other (.step (.deliver 2 ⟨"t", none⟩ "b")),
    .other (.step (.claim 2 .done)), .other (.step (.call 2 (.done (.task (some row'.toDomain))))),
    .other (.step (.call 2 (.done (.names [])))), .other (.select 2),
    .other (.step (.call 2 (.done .done))), .other (.step (.call 1 (.done .done)))]

/-- The task is stored with the status and with a `finished_at`. -/
def StatementWorld.storedAs (status : TaskStatus) (s : StatementWorld) : Bool :=
  (s.split.world.store.tasks.get? "t").any fun m => m.status = status && m.finishedAt.isSome

theorem not_wellFormed_of_storedAs {status : TaskStatus} {s : StatementWorld}
    (hne : status ≠ .success ∧ status ≠ .failed) (h : s.storedAs status = true) :
    ¬ ∀ m ∈ s.split.world.store.tasks, m.WellFormed := by
  intro hall
  obtain ⟨m, hm, hcheck⟩ := (Option.any_eq_true ..).mp h
  rw [Bool.and_eq_true, decide_eq_true_eq] at hcheck
  obtain ⟨rfl, hfinished⟩ := hcheck
  have hend := (hall m (Rel.Table.get?_eq_some.mp hm).1).finished.mpr hfinished
  exact hend.elim hne.1 hne.2

/-- **A finished row is not left alone.** If something comes between the two statements of a
reclaim, the row is `PENDING`, and if something comes between those of an `update`, it is
`RUNNING`, with its `finished_at`. So neither half of `Undisturbed` is enough. -/
theorem finished_row_released :
    (¬ (StatementWorld.statements fun _ => 0).Invariant StatementWorld.UpdatesUndisturbed fun s =>
      ∀ m ∈ s.split.world.store.tasks, m.WellFormed) ∧
    ¬ (StatementWorld.statements fun _ => 0).Invariant StatementWorld.ReclaimsUndisturbed fun s =>
      ∀ m ∈ s.split.world.store.tasks, m.WellFormed := by
  constructor
  · intro hinv
    have hcheck : ((StatementWorld.statements fun _ => 0).runIf StatementWorld.updatesCheck
        StatementWorld.empty finishedInBetween).any (StatementWorld.storedAs .pending) = true := by
      decide +kernel
    obtain ⟨hg, s, hrun, hp⟩ := System.guarded_of_runIf
      (fun _ _ => StatementWorld.updatesUndisturbed_of_check) _ _ hcheck
    exact not_wellFormed_of_storedAs (by decide) hp
      (hinv s (.run (.init (StatementWorld.init_empty fun _ => 0)) hg hrun))
  · intro hinv
    have hcheck : ((StatementWorld.statements fun _ => 0).runIf StatementWorld.reclaimsCheck
        StatementWorld.empty supersededInBetween).any
          (StatementWorld.storedAs .running) = true := by
      decide +kernel
    obtain ⟨hg, s, hrun, hp⟩ := System.guarded_of_runIf
      (fun _ _ => StatementWorld.reclaimsUndisturbed_of_check) _ _ hcheck
    exact not_wellFormed_of_storedAs (by decide) hp
      (hinv s (.run (.init (StatementWorld.init_empty fun _ => 0)) hg hrun))

end FileExtractor

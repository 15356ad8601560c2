import FileExtractor.Properties.Suspension
import FileExtractor.Properties.WellFormed
import Mathlib.Tactic.Linarith

/-!
# The times of a task

Every time of a row was the present when it was set, and a copy is as old as the row that it was
read from. So however old the copy is that is written over a row, its times are in order: a
heartbeat is not before the start, the end is not before either, and a block lasts for more than a
minute from the last heartbeat (`Timely`). What the methods keep of this depends on the time of the
call (`KeptAt`), and as time goes on it stays true (`Timely.later`). As with the other columns,
nothing may come between the two statements of a write.
-/

namespace FileExtractor

open Rel Lts World

/-- The times are not in the future, and in order. -/
structure DownloadTask.Timely (now : Time) (t : DownloadTask) : Prop where
  started : ∀ s, t.startedAt = some s → s ≤ now
  beaten : ∀ b, t.lastHeartbeat = some b → b ≤ now ∧ ∃ s, t.startedAt = some s ∧ s ≤ b
  finished : ∀ u, t.finishedAt = some u → u ≤ now ∧ (∀ s, t.startedAt = some s → s ≤ u) ∧
    ∀ b, t.lastHeartbeat = some b → b ≤ u
  blocked : ∀ u, t.blockedUntil = some u → ∀ b, t.lastHeartbeat = some b → b + 60 < u

namespace DownloadTask

variable {now now' : Time} {t : DownloadTask}

theorem Timely.later (h : t.Timely now) (hle : now ≤ now') : t.Timely now' where
  started s hs := (h.started s hs).trans hle
  beaten b hb := ⟨(h.beaten b hb).1.trans hle, (h.beaten b hb).2⟩
  finished u hu := ⟨(h.finished u hu).1.trans hle, (h.finished u hu).2⟩
  blocked := h.blocked

theorem timely_new (id : TaskId) (candidateId : String) : (new id candidateId).Timely now where
  started _ h := by cases h
  beaten _ h := by cases h
  finished _ h := by cases h
  blocked _ h := by cases h

/-- An end at the present. -/
theorem Timely.finish (h : t.Timely now) {t' : DownloadTask} (hs : t'.startedAt = t.startedAt)
    (hb : t'.lastHeartbeat = t.lastHeartbeat) (hf : t'.finishedAt = some now)
    (hu : t'.blockedUntil = t.blockedUntil) : t'.Timely now where
  started := hs ▸ h.started
  beaten := by rw [hs, hb]; exact h.beaten
  finished u hfu := by
    obtain rfl : now = u := Option.some.inj (hf.symm.trans hfu)
    exact ⟨le_rfl, hs ▸ h.started, fun b hb' => (h.beaten b (hb ▸ hb')).1⟩
  blocked := by rw [hu, hb]; exact h.blocked

/-- The columns of the copy decide which of its times are set. -/
def Dated (now : Time) (n : Nat) (t : DownloadTask) : Prop := t.Columns n ∧ t.Timely now

theorem Columns.unblocked {n : Nat} (h : t.Columns n) (hs : t.status ≠ .blocked) :
    t.blockedUntil = none := by
  by_contra hne
  exact hs (h.1.blocked.mpr (Option.isSome_iff_ne_none.mpr hne))

theorem Columns.unfinished {n : Nat} (h : t.Columns n) (hs : t.status ≠ .success)
    (hf : t.status ≠ .failed) : t.finishedAt = none := by
  by_contra hne
  exact (h.1.finished.mpr (Option.isSome_iff_ne_none.mpr hne)).elim hs hf

/-- A running task has started, and has neither finished nor been blocked. -/
theorem Dated.of_running {n : Nat} (h : t.Dated now n) (hs : t.status = .running) :
    (∃ s, t.startedAt = some s ∧ s ≤ now) ∧ t.finishedAt = none ∧ t.blockedUntil = none := by
  obtain ⟨s, hstart⟩ := Option.isSome_iff_exists.mp (h.1.1.running hs).2.1
  exact ⟨⟨s, hstart, h.2.started s hstart⟩, h.1.unfinished (by simp [hs]) (by simp [hs]),
    h.1.unblocked (by simp [hs])⟩

/-- **What a handler does** to its copy at the time `now`. -/
theorem dated_kept (now : Time) : KeptAt now fun n t => t.Dated now n where
  heartbeat hs h := by
    obtain ⟨⟨s, hstart, hle⟩, hf, hb⟩ := h.of_running hs
    refine ⟨columns_invariant.heartbeat now hs h.1, h.2.started, fun b hb' => ?_, fun u hu => ?_,
      fun u hu => ?_⟩
    · cases hb'; exact ⟨le_rfl, s, hstart, hle⟩
    · rw [hf] at hu; cases hu
    · rw [hb] at hu; cases hu
  received k hs h := ⟨columns_invariant.received k hs h.1, h.2.1, h.2.2, h.2.3, h.2.4⟩
  decreased hs h := ⟨columns_invariant.decreased hs h.1, h.2.1, h.2.2, h.2.3, h.2.4⟩
  processed k hs h := ⟨columns_invariant.processed k hs h.1, h.2.1, h.2.2, h.2.3, h.2.4⟩
  completed hs h := ⟨columns_invariant.completed now hs h.1, h.2.finish rfl rfl rfl rfl⟩
  failed error hs h := ⟨columns_invariant.failed error now hs h.1, h.2.finish rfl rfl rfl rfl⟩
  blocked r until_ reason error hs hr hu h := by
    obtain ⟨-, hf, -⟩ := h.of_running hs
    refine ⟨columns_invariant.blocked until_ reason error hs h.1, h.2.started, h.2.beaten,
      fun u hu' => ?_, fun u hu' b hb => ?_⟩
    · rw [hf] at hu'; cases hu'
    · cases hu'
      have hle := (h.2.beaten b hb).1
      have hr' : (60 : Rat) < r := by exact_mod_cast hr
      rw [addSeconds_eq_some hu]
      linarith

/-- A release clears times only. -/
theorem Dated.release {m : DownloadTaskModel} (h : m.toDomain.Dated now 0) (r : Reclaim)
    (hs : m.status = r.status) : (r.release m).toDomain.Dated now 0 := by
  refine ⟨columns_invariant.release r hs h.1, ?_⟩
  obtain ⟨-, ht⟩ := h
  cases r with
  | stuck cutoff =>
    exact ⟨ht.started, fun _ hb => (by cases hb),
      fun u hu => ⟨(ht.finished u hu).1, (ht.finished u hu).2.1, fun _ hb => (by cases hb)⟩,
      fun _ hu => (by cases hu)⟩
  | blocked cutoff => exact ⟨ht.started, ht.beaten, ht.finished, fun _ hu => (by cases hu)⟩

end DownloadTask

namespace World

variable {sha256 : Bytes → Digest} {w w' : World} {l : Label}

/-- All rows and copies are dated. -/
def Dated (w : World) : Prop := w.TasksHold fun n t => t.Dated w.now n

theorem Dated.step (hw : w.Dated) (h : Step sha256 w l w') : w'.Dated := by
  have hle := h.now_mono
  have later : ∀ n t, DownloadTask.Dated w.now n t → DownloadTask.Dated w'.now n t :=
    fun n t hj => ⟨hj.1, hj.2.later hle⟩
  refine ⟨fun {id m'} hm => ?_, fun {pid k'} hk => ?_⟩
  · have hr := h.rowStep hm
    generalize hg : w.store.tasks.get? id = g at hr
    cases hr with
    | kept m hn => exact later _ _ (hw.rows hg)
    | added pid candidateId fate hl hn =>
      exact ⟨DownloadTask.columns_invariant.new _ _, DownloadTask.timely_new ..⟩
    | claimed m pid msg workerId fate hl hf hp hm hs hn =>
      obtain ⟨hcol, ht⟩ := hw.rows hg
      have hfin : m.finishedAt = none := hcol.unfinished (by simp [DownloadTaskModel.toDomain, hs])
        (by simp [DownloadTaskModel.toDomain, hs])
      refine later _ _ ⟨DownloadTask.columns_invariant.claimed _ _ hs hcol, fun s hs' => ?_,
        fun b hb => ?_, fun u hu => ?_, fun u hu => by cases hu⟩
      · cases hs'; exact le_rfl
      · cases hb; exact ⟨le_rfl, w.now, rfl, le_rfl⟩
      · replace hu : m.finishedAt = some u := hu
        rw [hfin] at hu; cases hu
    | written m pid reply k t hl hp hc ht hn =>
      obtain ⟨⟨n, hcol, htime⟩, -⟩ := (hw.copies hp).written hc
      exact later _ _ ⟨DownloadTask.columns_invariant.rename m.id m.candidateId hcol,
        htime.1, htime.2, htime.3, htime.4⟩
    | releasedStuck m pid ids fate hl hf hid hs hn =>
      exact later _ _ ((hw.rows hg).release (.stuck 0) (DownloadTaskModel.running_of_isStuck hs))
    | releasedBlocked m pid ids fate hl hf hid hs hn =>
      exact later _ _
        ((hw.rows hg).release (.blocked 0) (DownloadTaskModel.blocked_of_isReleasable hs))
  · cases h.handling hk with
    | kept k lost hp hl hlost => exact (hw.copies (k := k) hp).imp later
    | begun m workerId row hl hp hrow hs hrow' => trivial
    | resumed k reply c handler hl hp hc hs hr =>
      refine Handler.Held.imp (Handler.Held.resume_at (DownloadTask.dated_kept w.now)
        (hw.copies hp) (fun t ht => ?_) _ hr) later
      obtain ⟨-, m, hm, rfl⟩ := Handler.reads hc hs hr ht
      exact hw.rows hm

end World

theorem dated_statements (sha256 : Bytes → Digest) :
    StatementWorld.StatementInvariant sha256 StatementWorld.Undisturbed World.Dated where
  fresh now bucket := tasksHold_fresh now bucket
  step hw h := hw.step h
  commit hw hok hp hc ht hr := hw.step (StatementWorld.Undisturbed.call hok hp hc ht hr)
  update {s _ r ids _} hw hok hsel hf _ := by
    show World.TasksHold (fun n t => t.Dated (s.split.world.reclaimed ids r).now n) _
    rw [StatementWorld.reclaimed_now]
    exact StatementWorld.tasksHold_reclaimed hw fun id hid m hm hj =>
      hj.release r (hok.2 r ids hsel hf id hid m hm)

/-- **The times of every stored row are in order**, in every state of every run in which nothing
comes between the two statements of a write, also after late writes of workers whose tasks were
reclaimed: the start, the heartbeat and the end are not in the future and follow each other, and a
block ends more than a minute after the last heartbeat. -/
theorem times_in_order (sha256 : Bytes → Digest) :
    (StatementWorld.statements sha256).Invariant StatementWorld.Undisturbed fun s =>
      ∀ m ∈ s.split.world.store.tasks, m.toDomain.Timely s.split.world.now :=
  fun s hs _ hm => (((dated_statements sha256).invariant s hs).rows (Rel.Table.get?_mem hm)).2

end FileExtractor

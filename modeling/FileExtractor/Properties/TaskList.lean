import Mathlib.Algebra.Order.Ring.Unbundled.Rat
import FileExtractor.Presentation.Routes
import FileExtractor.Properties.Obtained

/-!
# The tasks that are listed

`list_tasks` shows ten tasks in descending order of `started_at`. A task has a start exactly when it
has been claimed (`World.Started`), and a task without one stands before all others. So ten tasks
that nobody has claimed hide every task that runs or has run.
-/

namespace FileExtractor

open Rel Lts World

theorem CopyInvariant.started (P : Option Time → Prop) :
    CopyInvariant fun _ t => P t.startedAt where
  weaken h := h
  heartbeat _ _ h := h
  received _ _ h := h
  decreased _ h := h
  processed _ _ h := h
  completed _ _ h := h
  failed _ _ _ h := h
  blocked _ _ _ _ h := h

namespace World

/-- A row has a start if its task has been claimed, and so does the copy of a handler. -/
structure Started (w : World) : Prop where
  absent : ∀ {id}, w.store.tasks.get? id = none → w.claims id = 0
  rows : ∀ {id m}, w.store.tasks.get? id = some m → (m.startedAt.isSome ↔ 0 < w.claims id)
  copies : ∀ {pid k}, w.procs pid = .handling k →
    k.handler.Held fun _ t => t.startedAt.isSome = true

variable {sha256 : Bytes → Digest} {w w' : World} {l : Label}

/-- Only a stored task is claimed. -/
theorem claims_absent (h : Step sha256 w l w') {id : TaskId}
    (hn : w.store.tasks.get? id = none) : w'.claims id = w.claims id := by
  cases h with
  | claimed pid m workerId fate row hp hf hrow hs =>
    refine Function.update_of_ne (fun e => ?_) _ _
    rw [e, hrow] at hn; cases hn
  | _ => rfl

/-- A handler works on a task that has been claimed. -/
theorem claims_pos (hu : ∀ id, w.claims id = 0 → w.Unclaimed id) {pid : Pid} {k : Worker}
    (hp : w.procs pid = .handling k) : 0 < w.claims k.message.taskId :=
  Nat.pos_of_ne_zero fun h0 => (hu _ h0).handlers pid k hp rfl

theorem Started.step (hw : w.Started) (hu : ∀ id, w.claims id = 0 → w.Unclaimed id)
    (hid : w.CopiesOfMessage) (h : Step sha256 w l w') : w'.Started := by
  refine ⟨fun {id} hn => ?_, fun {id m'} hm => ?_, fun {pid k'} hk => ?_⟩
  · have hnone : w.store.tasks.get? id = none := by
      cases hg : w.store.tasks.get? id with
      | none => rfl
      | some m =>
        obtain ⟨m', hm'⟩ := h.row_persists hg
        rw [hn] at hm'; cases hm'
    rw [claims_absent h hnone, hw.absent hnone]
  · have hr := h.rowStep hm
    generalize hg : w.store.tasks.get? id = g at hr
    cases hr with
    | kept m hn => rw [hn]; exact hw.rows hg
    | added pid candidateId fate hl hn =>
      rw [hn, hw.absent hg]
      exact ⟨fun hs => (by cases hs), fun hc => absurd hc (Nat.lt_irrefl 0)⟩
    | claimed m pid msg workerId fate hl hf hp hm hs hn =>
      rw [hn]; exact ⟨fun _ => Nat.succ_pos _, fun _ => rfl⟩
    | written m pid reply k t hl hp hc ht hn =>
      have hstart := ((hw.copies hp).stored (.started fun s => s.isSome = true) hc).1
      have htask : t.id = k.message.taskId :=
        ((hid pid k hp).stored (.identity fun i _ _ => i = k.message.taskId) hc).1
      have hpos := claims_pos hu hp
      rw [hn, ← ht, htask]
      exact ⟨fun _ => hpos, fun _ => hstart⟩
    | releasedStuck m pid ids fate hl hf hid hs hn =>
      rw [hn]; exact hw.rows (m := m) hg
    | releasedBlocked m pid ids fate hl hf hid hs hn =>
      rw [hn]; exact hw.rows (m := m) hg
  · cases h.handling hk with
    | kept k lost hp hl hlost => exact hw.copies (k := k) hp
    | begun m workerId row hl hp hrow hs hrow' => trivial
    | resumed k reply c handler hl hp hc hs hr =>
      refine (hw.copies hp).resume (.started fun s => s.isSome = true) (fun t ht => ?_) _ hr
      obtain ⟨-, m, hm, rfl⟩ := Handler.reads hc hs hr ht
      exact (hw.rows hm).mpr (claims_pos hu hp)

end World

theorem started_of_claimed (sha256 : Bytes → Digest) :
    (system sha256).Invariant System.free World.Started := by
  refine System.Reach.induct ?_ fun w l w' hr hw _ hst => ?_
  · rintro w ⟨now, bucket, rfl⟩
    exact ⟨fun _ => rfl, fun h => (by cases h), fun h => (by cases h)⟩
  · exact hw.step (unclaimed_of_claims sha256 w hr) (copies_of_message sha256 w hr)
      (Step.of_step hst)

/-! ## The list -/

/-- A response of the list is that of a row among the first ten. -/
theorem mem_listTasks {tasks : TaskTable} {rows : List DownloadTaskModel}
    (hrows : rows.Perm tasks.rows) {m : DownloadTaskModel} (hm : m ∈ tasks) :
    taskToResponse m.toDomain ∈ listTasks rows ↔ m ∈ Paging.page 10 0 rows := by
  simp only [listTasks, TaskTable.listTasks, Paging.page, List.mem_map, exists_exists_and_eq_and]
  constructor
  · rintro ⟨m', hm', he⟩
    have hid : m'.id = m.id := congrArg TaskStatusResponse.taskId he
    have hmem : m' ∈ tasks := hrows.subset (List.mem_of_mem_drop (List.mem_of_mem_take hm'))
    exact Table.eq_of_key hmem hm hid ▸ hm'
  · exact fun h => ⟨m, h, rfl⟩

/-- The key of a task that nobody has claimed is the greatest. -/
theorem startedKey_iff {m y : DownloadTaskModel} {claims : Nat} (hm : m.startedAt.isSome)
    (hy : y.startedAt.isSome ↔ 0 < claims) :
    (m.startedKey ≤ y.startedKey ↔
      claims = 0 ∨ m.startedAt.getD 0 ≤ y.startedAt.getD 0) ∧
    (m.startedKey < y.startedKey ↔
      claims = 0 ∨ m.startedAt.getD 0 < y.startedAt.getD 0) := by
  obtain ⟨s, hs⟩ := Option.isSome_iff_exists.mp hm
  have hkm : m.startedKey = (s : WithTop Time) := hs
  cases hy' : y.startedAt with
  | none =>
    have hky : y.startedKey = ⊤ := hy'
    have h0 : claims = 0 := by
      rw [hy'] at hy
      exact Nat.eq_zero_of_not_pos fun h => by cases hy.mpr h
    rw [hkm, hky]
    exact ⟨⟨fun _ => .inl h0, fun _ => le_top⟩, ⟨fun _ => .inl h0, fun _ => WithTop.coe_lt_top s⟩⟩
  | some s' =>
    have hky : y.startedKey = (s' : WithTop Time) := hy'
    have hpos : claims ≠ 0 := Nat.ne_of_gt (hy.mp (by rw [hy']; rfl))
    rw [hkm, hky, hs, WithTop.coe_le_coe, WithTop.coe_lt_coe]
    exact ⟨(or_iff_right hpos).symm, (or_iff_right hpos).symm⟩

/-- **Which tasks are listed**, in every reachable state, where rows with one `started_at` may come
in any order. A task that has been claimed is sure to be listed exactly if it is, with itself, one
of at most ten tasks that nobody has claimed or that did not start before it; and it may be listed
exactly if fewer than ten are unclaimed or started after it. So behind ten unclaimed tasks no other
is listed. -/
theorem listed_iff (sha256 : Bytes → Digest) :
    (system sha256).Invariant System.free fun w => ∀ m ∈ w.store.tasks, 0 < w.claims m.id →
      ((∀ rows, Paging.Arranges DownloadTaskModel.startedKey w.store.tasks.rows rows →
          taskToResponse m.toDomain ∈ listTasks rows) ↔
        w.store.tasks.rows.countP (fun y => w.claims y.id = 0 ∨
          m.startedAt.getD 0 ≤ y.startedAt.getD 0) ≤ 10) ∧
      ((∃ rows, Paging.Arranges DownloadTaskModel.startedKey w.store.tasks.rows rows ∧
          taskToResponse m.toDomain ∈ listTasks rows) ↔
        w.store.tasks.rows.countP (fun y => w.claims y.id = 0 ∨
          m.startedAt.getD 0 < y.startedAt.getD 0) < 10) := by
  intro w hr m hm hclaims
  have hw := started_of_claimed sha256 w hr
  have hnodup : w.store.tasks.rows.Nodup := List.Nodup.of_map _ w.store.tasks.nodup
  -- the keys, as the claims and the times decide them
  have hkey : ∀ y ∈ w.store.tasks.rows, (m.startedKey ≤ y.startedKey ↔
      w.claims y.id = 0 ∨ m.startedAt.getD 0 ≤ y.startedAt.getD 0) ∧
      (m.startedKey < y.startedKey ↔
        w.claims y.id = 0 ∨ m.startedAt.getD 0 < y.startedAt.getD 0) := by
    intro y hy
    exact startedKey_iff ((hw.rows (Table.get?_mem hm)).mpr hclaims) (hw.rows (Table.get?_mem hy))
  have hupTo : Paging.upTo DownloadTaskModel.startedKey w.store.tasks.rows m =
      w.store.tasks.rows.countP fun y => w.claims y.id = 0 ∨
        m.startedAt.getD 0 ≤ y.startedAt.getD 0 :=
    List.countP_congr fun y hy => by simp only [decide_eq_true_eq]; exact (hkey y hy).1
  have hbefore : Paging.before DownloadTaskModel.startedKey w.store.tasks.rows m =
      w.store.tasks.rows.countP fun y => w.claims y.id = 0 ∨
        m.startedAt.getD 0 < y.startedAt.getD 0 :=
    List.countP_congr fun y hy => by simp only [decide_eq_true_eq]; exact (hkey y hy).2
  rw [← hupTo, ← hbefore, ← Paging.forall_mem_first_iff hm hnodup,
    ← Paging.exists_mem_first_iff hm hnodup]
  exact ⟨forall_congr' fun rows => forall_congr' fun h => mem_listTasks h.perm hm,
    exists_congr fun rows => and_congr_right fun h => mem_listTasks h.perm hm⟩

end FileExtractor

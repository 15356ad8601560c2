import FileExtractor.Properties.Exclusion

/-!
# A task is executed once for each release

A message may be delivered any number of times: the broker repeats it, a crash puts it back, the
watchdog sends it again. What decides is the row. It becomes `PENDING` when the task is created or
reclaimed (`Label.releases`), and a claim uses that up. So the claims of a task, and the one that
its row still allows (`World.turns`), are never more than its releases; and they are exactly as
many while no late write takes a `PENDING` row away.
-/

namespace FileExtractor

open Rel Lts World

/-- The step makes the row of the task `PENDING`. -/
def Label.releases (id : TaskId) : Label → Bool
  | .start _ taskId _ fate => taskId = id && fate ≠ .refused
  | .reclaimStuck _ ids fate | .reclaimBlocked _ ids fate => ids.contains id && fate ≠ .refused
  | _ => false

namespace World

/-- The row of the task is `PENDING`. -/
def isPending (w : World) (id : TaskId) : Bool :=
  (w.store.tasks.get? id).any fun m => m.status = .pending

/-- The claims of the task so far, and the one that may come. -/
def turns (w : World) (id : TaskId) : Nat := w.claims id + if w.isPending id then 1 else 0

variable {sha256 : Bytes → Digest} {w w' : World} {l : Label} {id : TaskId}

theorem isPending_of_row {m : DownloadTaskModel} (hm : w.store.tasks.get? id = some m) :
    w.isPending id = decide (m.status = .pending) := by
  simp [isPending, hm]

theorem not_isPending_of_none (hn : w.store.tasks.get? id = none) : w.isPending id = false := by
  simp [isPending, hn]

/-- A release finds no `PENDING` row and leaves one. -/
theorem released (h : Step sha256 w l w') (hl : l.releases id = true) :
    w.isPending id = false ∧ w'.isPending id = true := by
  cases h with
  | start pid taskId candidateId fate tasks hp hf ht =>
    simp only [Label.releases, Bool.and_eq_true, decide_eq_true_eq] at hl
    obtain ⟨rfl, -⟩ := hl
    refine ⟨not_isPending_of_none (Table.insert?_eq_some ht).1, ?_⟩
    show (tasks.get? taskId).any _ = true
    rw [TaskTable.get?_add ht]
    simp [DownloadTask.new, DownloadTask.toModel]
  | reclaimStuck pid ids fate hp hf hsel =>
    simp only [Label.releases, Bool.and_eq_true, List.contains_iff_mem] at hl
    obtain ⟨m, hm, hs⟩ := TaskTable.selects_row hsel hl.1
    refine ⟨?_, ?_⟩
    · rw [isPending_of_row hm, DownloadTaskModel.running_of_isStuck hs]; rfl
    · show ((w.store.tasks.reclaimStuck ids).get? id).any _ = true
      rw [TaskTable.get?_reclaimStuck, hm, Option.map_some, (Table.get?_eq_some.mp hm).2,
        if_pos hl.1]
      rfl
  | reclaimBlocked pid ids fate hp hf hsel =>
    simp only [Label.releases, Bool.and_eq_true, List.contains_iff_mem] at hl
    obtain ⟨m, hm, hs⟩ := TaskTable.selects_row hsel hl.1
    refine ⟨?_, ?_⟩
    · rw [isPending_of_row hm, DownloadTaskModel.blocked_of_isReleasable hs]; rfl
    · show ((w.store.tasks.reclaimBlocked ids).get? id).any _ = true
      rw [TaskTable.get?_reclaimBlocked, hm, Option.map_some, (Table.get?_eq_some.mp hm).2,
        if_pos hl.1]
      rfl
  | refused l hr => cases l <;> simp_all [Label.releases, Label.isRefused]
  | _ => cases hl

/-- A task without a row is not claimed. -/
theorem claims_of_none (h : Step sha256 w l w') (hn : w'.store.tasks.get? id = none) :
    w.store.tasks.get? id = none ∧ w'.claims id = w.claims id := by
  have hn₀ : w.store.tasks.get? id = none := by
    cases hg : w.store.tasks.get? id with
    | none => rfl
    | some m =>
      obtain ⟨m', hm'⟩ := h.row_persists hg
      rw [hn] at hm'; cases hm'
  refine ⟨hn₀, ?_⟩
  cases h with
  | claimed pid msg workerId fate row hp hf hrow hs =>
    have hne : id ≠ msg.taskId := fun e => by rw [← e, hn₀] at hrow; cases hrow
    exact Function.update_of_ne hne _ _
  | _ => rfl

/-- **One step**: the turns grow by a release only, and only a write to a `PENDING` row, which no
live handler makes, takes one away. -/
theorem turns_step (hid : w.CopiesOfMessage) (h : Step sha256 w l w') :
    w'.turns id ≤ w.turns id + (if l.releases id then 1 else 0) ∧
      (w.Exclusive → w'.turns id = w.turns id + if l.releases id then 1 else 0) := by
  by_cases hl : l.releases id = true
  · -- the claims stay
    obtain ⟨hp, hp'⟩ := released h hl
    have hc : w'.claims id = w.claims id := by
      cases h with
      | claimed => cases hl
      | _ => rfl
    have : w'.turns id = w.turns id + 1 := by simp [turns, hp, hp', hc]
    rw [if_pos hl]
    exact ⟨Nat.le_of_eq this, fun _ => this⟩
  suffices hs : w'.turns id ≤ w.turns id ∧ (w.Exclusive → w'.turns id = w.turns id) by
    rw [if_neg hl]; exact hs
  cases hm' : w'.store.tasks.get? id with
  | none =>
    obtain ⟨hn, hc⟩ := claims_of_none h hm'
    have : w'.turns id = w.turns id := by
      simp [turns, not_isPending_of_none hn, not_isPending_of_none hm', hc]
    exact ⟨Nat.le_of_eq this, fun _ => this⟩
  | some m' =>
    have hr := h.rowStep hm'
    generalize hg : w.store.tasks.get? id = g at hr
    have same : w'.turns id = w.turns id →
        w'.turns id ≤ w.turns id ∧ (w.Exclusive → w'.turns id = w.turns id) :=
      fun e => ⟨Nat.le_of_eq e, fun _ => e⟩
    cases hr with
    | kept m hn => exact same (by simp [turns, isPending_of_row hg, isPending_of_row hm', hn])
    | added pid candidateId fate hlab hn =>
      subst hlab
      -- a rolled back creation leaves no row
      have hf : fate = .refused := by simpa [Label.releases] using hl
      subst hf
      cases h with
      | refused l hr => rw [hg] at hm'; cases hm'
      | start pid taskId candidateId fate tasks hp hf ht => exact absurd rfl hf
    | claimed m pid msg workerId fate hlab hf hp hmsg hs hn =>
      refine same ?_
      simp [turns, isPending_of_row hg, isPending_of_row hm', hn, hs, DownloadTaskModel.claimed]
    | written m pid reply k t hlab hp hc ht hn =>
      have hne : t.status ≠ .pending :=
        ((hid pid k hp).stored (.identity fun i _ _ => i = k.message.taskId) hc).2
      have hp' : w'.isPending id = false := by
        rw [isPending_of_row hm']; exact decide_eq_false hne
      refine ⟨by simp [turns, hp', hn], fun hw => ?_⟩
      obtain ⟨-, ho, -⟩ := hw.written (hid pid k hp) (ht ▸ hg) hp hc
      have hrow : w.isPending id = false := by
        rw [isPending_of_row hg, ho.running]; rfl
      simp [turns, hp', hrow, hn]
    | releasedStuck m pid ids fate hlab hf hmem hs hn =>
      subst hlab
      exact absurd (by simp [Label.releases, hmem, hf]) hl
    | releasedBlocked m pid ids fate hlab hf hmem hs hn =>
      subst hlab
      exact absurd (by simp [Label.releases, hmem, hf]) hl

end World

/-- **A task is executed at most once for each release**, in every run, whatever happens to its
messages: its claims, and the one that a `PENDING` row still allows, are at most as many as the
steps that made the row `PENDING`, each statement of the repository being one step. They are exactly
as many while `reclaim_stuck` takes only tasks whose handlers have ended. -/
theorem claims_le_releases (sha256 : Bytes → Digest) (w₀ w : World) (ls : List Label) (id : TaskId)
    (h0 : (system sha256).init w₀) (hrun : (system sha256).run w₀ ls = some w) :
    w.turns id ≤ ls.countP (Label.releases id) ∧
      ((system sha256).Guarded ReclaimsEnded w₀ ls →
        w.turns id = ls.countP (Label.releases id)) := by
  have hstart : w₀.turns id = 0 := by
    obtain ⟨now, bucket, rfl⟩ := h0
    rfl
  constructor
  · have := System.Reach.run_countP (R := fun w n => w.turns id ≤ n) (p := Label.releases id)
      (fun w n l w' hr hle _ hst => ?_) (.init h0) (Nat.le_of_eq hstart) System.guarded_free hrun
    · rwa [Nat.zero_add] at this
    · exact (turns_step (copies_of_message sha256 w hr) (Step.of_step hst)).1.trans
        (Nat.add_le_add_right hle _)
  · intro hg
    have := System.Reach.run_countP (R := fun w n => w.turns id = n) (p := Label.releases id)
      (fun w n l w' hr he _ hst => ?_) (.init h0) hstart hg hrun
    · rwa [Nat.zero_add] at this
    · rw [(turns_step (copies_of_message sha256 w hr.toFree) (Step.of_step hst)).2
        (exclusive_invariant sha256 w hr), he]

/-- The message of a new task is delivered to two workers. -/
def deliveredTwice : List Label :=
  let m : Message := ⟨"t", none⟩
  [.start 0 "t" none .done, .send 0, .redeliver m, .deliver 1 m "a", .deliver 2 m "b",
    .claim 1 .done, .claim 2 .done]

theorem delivered_twice_claimed_once :
    ∃ w, (system fun _ => 0).run (fresh 0 fun _ => none) deliveredTwice = some w ∧
      w.turns "t" ≤ 1 := by
  have hrun : (system fun _ => 0).run (fresh 0 fun _ => none) deliveredTwice = some _ := rfl
  exact ⟨_, hrun, (claims_le_releases _ _ _ _ "t" ⟨0, fun _ => none, rfl⟩ hrun).1⟩

end FileExtractor

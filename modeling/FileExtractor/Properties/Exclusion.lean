import FileExtractor.Properties.TaskInvariant

/-!
# One live handler for a task

`ReclaimsEnded` is the assumption of the watchdog: a task with a stale heartbeat has no handler
that still runs. Under it a claim is exclusive. The invariant (`Exclusive`) relates the copy of a
live handler to the shared row: the row is `RUNNING` under the handler's worker, and the copy has
the worker and the attempts of the row, so that a write of the whole copy changes neither.

The status of a row then only moves along `TaskStatus.Moves`.
-/

namespace FileExtractor

open Rel Lts World

/-! ## The invariant -/

/-- `reclaim_stuck` takes only tasks whose handlers have ended (or died: a dead handler is none). -/
def ReclaimsEnded (w : World) : Label → Prop
  | .reclaimStuck _ ids _ => ∀ pid k, w.procs pid = .handling k → k.message.taskId ∈ ids →
      k.handler.isEnded = true
  | _ => True

/-- The label is one of `reclaim_stuck`. -/
def Label.isReclaimStuck : Label → Bool
  | .reclaimStuck _ _ _ => true
  | _ => false

theorem guarded_of_no_reclaim {sha256 : Bytes → Digest} {w : World} {ls : List Label}
    (h : ∀ l ∈ ls, l.isReclaimStuck = false) : (system sha256).Guarded ReclaimsEnded w ls := by
  refine System.guarded_of_forall fun l hl s => ?_
  cases l with
  | reclaimStuck pid ids fate => cases h _ hl
  | _ => trivial

/-- A handler that has claimed its task and runs: it has not stored another status than `RUNNING`,
as it ends with such a write (`Handler.Held.ends`), and it has not ended or crashed. -/
def World.Live (w : World) (pid : Pid) (k : Worker) : Prop :=
  w.procs pid = .handling k ∧ k.handler.isEnded = false

/-- The row of a live handler, and its copy. -/
structure Worker.Owns (k : Worker) (m : DownloadTaskModel) : Prop where
  running : m.status = .running
  worker : m.workerId = some k.workerId
  copy : k.handler.Held fun _ t => t.workerId = m.workerId ∧ t.attempts = m.attempts

structure World.Exclusive (w : World) : Prop where
  owns : ∀ {pid k}, w.Live pid k →
    ∃ m, w.store.tasks.get? k.message.taskId = some m ∧ k.Owns m
  unique : ∀ {pid pid' k k'}, w.Live pid k → w.Live pid' k' →
    k.message.taskId = k'.message.taskId → pid = pid'
  counted : ∀ {id m}, w.store.tasks.get? id = some m → m.attempts = w.claims id
  unclaimed : ∀ {id}, w.store.tasks.get? id = none → w.claims id = 0

namespace World

variable {sha256 : Bytes → Digest} {w w' : World} {l : Label} {pid pid' : Pid} {k k' : Worker}

theorem Live.handling (h : w.Live pid k) : w.procs pid = .handling k := h.1

/-- A handler that awaits a call is live. -/
theorem live_of_call {c : Call} (hp : w.procs pid = .handling k)
    (hc : k.handler.call k.message = some c) : w.Live pid k := ⟨hp, Handler.isEnded_of_call hc⟩

/-- A live handler has begun with this step or was live before it. -/
theorem Live.before (h : Step sha256 w l w') (hk : w'.Live pid k') :
    (l = .claim pid .done ∧ k'.handler = .getTask ∧ ∃ row,
      w.store.tasks.get? k'.message.taskId = some row ∧ row.status = .pending ∧
        w'.store.tasks.get? k'.message.taskId = some (row.claimed k'.workerId w.now)) ∨
    ∃ k, w.Live pid k ∧ k.message = k'.message ∧ k.workerId = k'.workerId := by
  cases h.handling hk.handling with
  | kept k lost hp hl hlost => exact .inr ⟨k, ⟨hp, hk.2⟩, rfl, rfl⟩
  | begun m workerId row hl hp hrow hs hrow' => exact .inl ⟨hl, rfl, row, hrow, hs, hrow'⟩
  | resumed k reply c h hl hp hc hs hr => exact .inr ⟨k, live_of_call hp hc, rfl, rfl⟩

namespace Exclusive

variable (hw : w.Exclusive)
include hw

theorem not_live {m : DownloadTaskModel} (hm : w.store.tasks.get? k.message.taskId = some m)
    (hs : m.status ≠ .running) : ¬ w.Live pid k := by
  intro hk
  obtain ⟨m', hm', ho⟩ := hw.owns hk
  rw [hm] at hm'; cases hm'
  exact hs ho.running

/-- A row is written by the one live handler of the task, with its own worker and attempts. -/
theorem written {m : DownloadTaskModel} {t : DownloadTask}
    (hid : k.handler.Held fun _ t => t.id = k.message.taskId)
    (hm : w.store.tasks.get? t.id = some m) (hp : w.procs pid = .handling k)
    (hc : k.handler.call k.message = some (.updateTask t)) :
    k.message.taskId = t.id ∧ k.Owns m ∧ t.workerId = m.workerId ∧ t.attempts = m.attempts ∧
      t.status ≠ .pending := by
  have ht : t.id = k.message.taskId :=
    (hid.stored (.identity fun id _ _ => id = k.message.taskId) hc).1
  obtain ⟨m', hm', ho⟩ := hw.owns (live_of_call hp hc)
  rw [← ht, hm] at hm'; cases hm'
  obtain ⟨⟨hwid, ha⟩, hs⟩ :=
    ho.copy.stored (.identity fun _ wid a => wid = m.workerId ∧ a = m.attempts) hc
  exact ⟨ht.symm, ho, hwid, ha, hs⟩

/-- A step of another process leaves the row of a live handler `RUNNING` under its worker. -/
theorem owns_kept (hid : w.CopiesOfMessage) (hok : ReclaimsEnded w l)
    (h : Step sha256 w l w') (hk : w.Live pid k) (hl : ∀ reply, l ≠ .call pid reply) :
    ∃ m, w'.store.tasks.get? k.message.taskId = some m ∧ k.Owns m := by
  obtain ⟨m, hm, ho⟩ := hw.owns hk
  obtain ⟨m', hm'⟩ := h.row_persists hm
  have hr := h.rowStep hm'
  rw [hm] at hr
  refine ⟨m', hm', ?_⟩
  cases hr with
  | kept _ hn => exact ho
  | claimed _ pid' msg workerId fate hl' hf hp hmsg hs hn =>
    rw [ho.running] at hs; cases hs
  | written _ pid' reply k' t hl' hp hc ht hn =>
    obtain ⟨ht', -⟩ := hw.written (hid pid' k' hp) (ht ▸ hm) hp hc
    have : pid' = pid := hw.unique (live_of_call hp hc) hk (ht'.trans ht)
    exact absurd hl' (this ▸ hl reply)
  | releasedStuck _ pid' ids fate hl' hf hmem hs hn =>
    subst hl'
    have := hok pid k hk.handling hmem
    rw [hk.2] at this; cases this
  | releasedBlocked _ pid' ids fate hl' hf hmem hs hn =>
    simp [DownloadTaskModel.isReleasable, ho.running] at hs

/-- A call of a live handler after which it is still live leaves the row `RUNNING` under it. -/
theorem owns_resumed (hid : k.handler.Held fun _ t => t.id = k.message.taskId)
    {reply : Reply} {c : Call} {h' : Handler} (hp : w.procs pid = .handling k)
    (hc : k.handler.call k.message = some c)
    (hs : w.store.serve k.message.taskId c reply = some w'.store)
    (hr : k.handler.resume sha256 w.now reply.seen = some h') (he : h'.isEnded = false) :
    ∃ m, w'.store.tasks.get? k.message.taskId = some m ∧
      Worker.Owns { k with handler := h' } m := by
  obtain ⟨m, hm, ho⟩ := hw.owns (live_of_call hp hc)
  have hcopy : h'.Held fun _ t => t.workerId = m.workerId ∧ t.attempts = m.attempts := by
    refine ho.copy.resume (.identity fun _ wid a => wid = m.workerId ∧ a = m.attempts)
      (fun t ht => ?_) _ hr
    obtain ⟨-, row, hrow, rfl⟩ := Handler.reads hc hs hr ht
    rw [hm] at hrow; cases hrow
    exact ⟨rfl, rfl⟩
  rcases Store.serve_tasks hs with e | ⟨t, rfl, e⟩
  · exact ⟨m, by rw [e, hm], ho.running, ho.worker, hcopy⟩
  · have ht : t.id = k.message.taskId :=
      (hid.stored (.identity fun id _ _ => id = k.message.taskId) hc).1
    obtain ⟨-, -, hwid, ha, -⟩ := hw.written hid (ht ▸ hm) hp hc
    -- a write of another status would have ended the handler
    have hrun : t.status = .running := by
      by_contra hs'
      have := ho.copy.ends hc hs' hr
      rw [he] at this; cases this
    refine ⟨m.assign t, ?_, hrun, hwid.trans ho.worker, ?_⟩
    · rw [e, TaskTable.get?_update, hm]
      simp [(Table.get?_eq_some.mp hm).2, ht]
    · show h'.Held fun _ t' => t'.workerId = t.workerId ∧ t'.attempts = t.attempts
      rw [hwid, ha]; exact hcopy

theorem step_owns (hid : w.CopiesOfMessage) (hok : ReclaimsEnded w l)
    (h : Step sha256 w l w') (hk : w'.Live pid k') :
    ∃ m, w'.store.tasks.get? k'.message.taskId = some m ∧ k'.Owns m := by
  cases h.handling hk.handling with
  | kept k lost hp hl hlost =>
    obtain ⟨m, hm, ho⟩ := hw.owns_kept hid hok h ⟨hp, hk.2⟩ hl
    exact ⟨m, hm, ho.running, ho.worker, ho.copy⟩
  | begun m workerId row hl hp hrow hs hrow' => exact ⟨_, hrow', rfl, rfl, trivial⟩
  | resumed k reply c h hl hp hc hs hr =>
    exact hw.owns_resumed (hid pid k hp) hp hc hs hr hk.2

theorem step_unique (h : Step sha256 w l w') (hk : w'.Live pid k) (hk' : w'.Live pid' k')
    (e : k.message.taskId = k'.message.taskId) : pid = pid' := by
  rcases hk.before h with ⟨hl, -, row, hrow, hs, -⟩ | ⟨k₁, h₁, m₁, -⟩ <;>
    rcases hk'.before h with ⟨hl', -, row', hrow', hs', -⟩ | ⟨k₂, h₂, m₂, -⟩
  · rw [hl] at hl'; cases hl'; rfl
  · exact absurd h₂ (hw.not_live (m₂ ▸ e ▸ hrow) (by rw [hs]; decide))
  · exact absurd h₁ (hw.not_live (m₁ ▸ e ▸ hrow') (by rw [hs']; decide))
  · exact hw.unique h₁ h₂ (by rw [m₁, m₂, e])

theorem step_counted (hid : w.CopiesOfMessage) (h : Step sha256 w l w') {id : TaskId}
    {m' : DownloadTaskModel} (hm' : w'.store.tasks.get? id = some m') :
    m'.attempts = w'.claims id := by
  have hr := h.rowStep hm'
  generalize hg : w.store.tasks.get? id = g at hr
  cases hr with
  | kept m hn => rw [hn]; exact hw.counted hg
  | added pid candidateId fate hl hn => rw [hn, hw.unclaimed hg]; rfl
  | claimed m pid msg workerId fate hl hf hp hmsg hs hn =>
    rw [hn]; push_cast
    rw [← hw.counted hg]; rfl
  | written m pid reply k t hl hp hc ht hn =>
    obtain ⟨-, -, -, ha, -⟩ := hw.written (hid pid k hp) (ht ▸ hg) hp hc
    rw [hn, ← hw.counted hg]; exact ha
  | releasedStuck m pid ids fate hl hf hmem hs hn => rw [hn, ← hw.counted hg]; rfl
  | releasedBlocked m pid ids fate hl hf hmem hs hn => rw [hn, ← hw.counted hg]; rfl

omit hw in
theorem step_unclaimed (hw : w.Exclusive) (h : Step sha256 w l w') {id : TaskId}
    (hn : w'.store.tasks.get? id = none) : w'.claims id = 0 := by
  have hn₀ : w.store.tasks.get? id = none := by
    cases hg : w.store.tasks.get? id with
    | none => rfl
    | some m =>
      obtain ⟨m', hm'⟩ := h.row_persists hg
      rw [hn] at hm'; cases hm'
  have h0 := hw.unclaimed hn₀
  cases h with
  | claimed pid msg workerId fate row hp hf hrow hs =>
    have hne : id ≠ msg.taskId := fun e => by rw [← e, hn₀] at hrow; cases hrow
    show Function.update w.claims msg.taskId _ id = 0
    rw [Function.update_of_ne hne]; exact h0
  | _ => exact h0

end Exclusive

/-- **Claims are exclusive** while the watchdog takes only tasks of ended handlers. -/
theorem exclusive_invariant (sha256 : Bytes → Digest) :
    (system sha256).Invariant ReclaimsEnded World.Exclusive := by
  refine System.Reach.induct ?_ fun w l w' hr hw hok hst => ?_
  · rintro w ⟨now, bucket, rfl⟩
    refine ⟨fun h => (by cases h.1), fun h => (by cases h.1), fun h => ?_, fun _ => rfl⟩
    simp [fresh, Store.empty] at h
  · have h := Step.of_step hst
    have hid := copies_of_message sha256 w hr.toFree
    exact ⟨hw.step_owns hid hok h, hw.step_unique h, hw.step_counted hid h, hw.step_unclaimed h⟩

end World

/-! ## The state machine of the tasks -/

/-- The documented moves of a stored status. -/
inductive TaskStatus.Moves : TaskStatus → TaskStatus → Prop
  | claimed : Moves .pending .running
  | completed : Moves .running .success
  | failed : Moves .running .failed
  | blocked : Moves .running .blocked
  | reclaimed : Moves .running .pending
  | released : Moves .blocked .pending

namespace World

/-- A step moves the status of a row along the state machine, if it changes it. -/
theorem Exclusive.moves {sha256 : Bytes → Digest} {w w' : World} {l : Label} (hw : w.Exclusive)
    (hid : w.CopiesOfMessage) (h : Step sha256 w l w') {id : TaskId}
    {m m' : DownloadTaskModel} (hm : w.store.tasks.get? id = some m)
    (hm' : w'.store.tasks.get? id = some m') :
    m'.status = m.status ∨ m.status.Moves m'.status := by
  have hr := h.rowStep hm'
  rw [hm] at hr
  cases hr with
  | kept _ hn => exact .inl rfl
  | claimed _ pid msg workerId fate hl hf hp hmsg hs hn => rw [hs]; exact .inr .claimed
  | written _ pid reply k t hl hp hc ht hn =>
    obtain ⟨-, ho, -, -, hne⟩ := hw.written (hid pid k hp) (ht ▸ hm) hp hc
    rw [ho.running]
    show t.status = .running ∨ TaskStatus.Moves .running t.status
    cases hs : t.status with
    | pending => exact absurd hs hne
    | running => exact .inl rfl
    | success => exact .inr .completed
    | failed => exact .inr .failed
    | blocked => exact .inr .blocked
  | releasedStuck _ pid ids fate hl hf hmem hs hn =>
    rw [DownloadTaskModel.running_of_isStuck hs]; exact .inr .reclaimed
  | releasedBlocked _ pid ids fate hl hf hmem hs hn =>
    rw [DownloadTaskModel.blocked_of_isReleasable hs]; exact .inr .released

end World

/-- **Mutual exclusion and the state machine.** While `reclaim_stuck` takes only tasks whose
handlers have ended: in every reachable state a task has at most one live handler, the row of a
live handler is `RUNNING` under its worker, and `attempts` is the number of the claims; and every
step leaves the status of a row or moves it along the state machine. -/
theorem mutual_exclusion (sha256 : Bytes → Digest) :
    (system sha256).Invariant ReclaimsEnded (fun w =>
      (∀ pid pid' k k', w.Live pid k → w.Live pid' k' →
        k.message.taskId = k'.message.taskId → pid = pid') ∧
      (∀ pid k, w.Live pid k → ∃ m, w.store.tasks.get? k.message.taskId = some m ∧
        m.status = .running ∧ m.workerId = some k.workerId) ∧
      ∀ id m, w.store.tasks.get? id = some m → m.attempts = w.claims id) ∧
    (system sha256).Keeps ReclaimsEnded (fun w _ w' => ∀ id m m',
      w.store.tasks.get? id = some m → w'.store.tasks.get? id = some m' →
        m'.status = m.status ∨ m.status.Moves m'.status) := by
  constructor
  · intro w hr
    have hw := World.exclusive_invariant sha256 w hr
    refine ⟨fun pid pid' k k' => hw.unique, fun pid k hk => ?_, fun id m => hw.counted⟩
    obtain ⟨m, hm, ho⟩ := hw.owns hk
    exact ⟨m, hm, ho.running, ho.worker⟩
  · intro w l w' hr hok hst id m m' hm hm'
    exact (World.exclusive_invariant sha256 w hr).moves (copies_of_message sha256 w hr.toFree)
      (Step.of_step hst) hm hm'

end FileExtractor

import FileExtractor.Lib.Possible
import FileExtractor.Properties.Coverage
import FileExtractor.Properties.Exclusion
import FileExtractor.Properties.WellFormed
import FileExtractor.Worker.Runs
import Mathlib.Algebra.Order.Ring.Rat
import Mathlib.Tactic.Linarith

/-!
# Every unfinished task can still be finished

No order of steps leads the system into a corner: as long as no message is dropped, from every
state it gets to, each task that has not succeeded or failed can come to `SUCCESS`, by steps that
drop no message, need no second delivery and reclaim no task of a running handler. A `PENDING` task
has a message that a worker can claim (`pending_awaited`). A `RUNNING` task has a heartbeat, and a
`BLOCKED` one a time, because its row is well-formed; when the time has come the watchdog takes the
task, and it is `PENDING`.
-/

namespace FileExtractor

open Rel Lts World

/-- The broker delivers no message that has been acknowledged. -/
def NoRedelivery (_ : World) : Label → Prop
  | .redeliver _ => False
  | _ => True

/-- No message is dropped or delivered again, and only tasks of ended handlers are reclaimed. -/
def Careful (w : World) (l : Label) : Prop :=
  NoMessageDropped w l ∧ ReclaimsEnded w l ∧ NoRedelivery w l

/-! ## Some process is idle -/

theorem Label.exists_within (l : Label) : ∃ n, ∀ m, n ≤ m → l.within m = true := by
  cases l with
  | tick d => exact ⟨0, fun _ _ => rfl⟩
  | redeliver m => exact ⟨0, fun _ _ => rfl⟩
  | start pid | send pid | sendFails pid | deliver pid | claim pid | call pid | ack pid
  | reclaimStuck pid | reclaimBlocked pid | crash pid =>
    exact ⟨pid + 1, fun m hm => decide_eq_true hm⟩

theorem World.Within.mono {w : World} {n m : Nat} (h : w.Within n) (hnm : n ≤ m) : w.Within m :=
  fun pid hp => h pid (hnm.trans hp)

/-- Finitely many processes are busy. -/
theorem within_invariant (sha256 : Bytes → Digest) :
    (system sha256).Invariant System.free fun w => ∃ n, w.Within n := by
  refine System.Reach.induct ?_ fun w l w' _ hw _ hst => ?_
  · rintro w ⟨now, bucket, rfl⟩
    exact ⟨0, .fresh⟩
  · obtain ⟨n, hn⟩ := hw
    obtain ⟨m, hm⟩ := l.exists_within
    exact ⟨max n m, (hn.mono (le_max_left n m)).step (Step.of_step hst) (hm _ (le_max_right n m))⟩

theorem exists_idle {sha256 : Bytes → Digest} {w : World}
    (hr : (system sha256).Reach System.free w) : ∃ pid, w.procs pid = .idle := by
  obtain ⟨n, hn⟩ := within_invariant sha256 w hr
  exact ⟨n, hn n le_rfl⟩

/-! ## The steps -/

namespace World

variable {sha256 : Bytes → Digest} {w w' : World} {id : TaskId} {pid : Pid}

/-- The row of the task is `PENDING`. -/
def Pending (id : TaskId) (w : World) : Prop :=
  ∃ m, w.store.tasks.get? id = some m ∧ m.status = .pending

def Succeeded (id : TaskId) (w : World) : Prop :=
  ∃ m, w.store.tasks.get? id = some m ∧ m.status = .success

theorem step_call {k : Worker} {c : Call} {reply : Reply} {store : Store} {h : Handler}
    (hp : w.procs pid = .handling k) (hc : k.handler.call k.message = some c)
    (hs : w.store.serve k.message.taskId c reply = some store)
    (hr : k.handler.resume sha256 w.now reply.seen = some h) :
    (system sha256).step w (.call pid reply) =
      some ({ w with store := store }.setProc pid (.handling { k with handler := h })) := by
  simp [system, World.step, World.call, hp, hc, hs, hr]

/-- A handler that has claimed its task, and is given no names, completes it. -/
theorem can_succeed_of_claimed {k : Worker} {m : DownloadTaskModel}
    (hp : w.procs pid = .handling k) (hk : k.handler = .getTask)
    (hm : w.store.tasks.get? k.message.taskId = some m) (hs : m.status = .running) :
    (system sha256).Can Careful (Succeeded k.message.taskId) w := by
  have hid := (Table.get?_eq_some.mp hm).2
  have hget : w.store.serve k.message.taskId (.getById k.message.taskId)
      (.done (.task (some m.toDomain))) = some w.store := by
    simp [Store.serve, Store.permits, TaskTable.getById, hm, Store.apply]
  refine .step (.call pid (.done (.task (some m.toDomain)))) _ ⟨trivial, trivial, trivial⟩
    (step_call hp (by rw [hk]; rfl) hget (by rw [hk]; rfl)) ?_
  -- the answer of the API with no names: nothing is pending, and the copy is `RUNNING`
  have hnames : w.store.serve k.message.taskId (.getFileNames m.toDomain.candidateId)
      (.done (.names [])) = some w.store := rfl
  refine .step (.call pid (.done (.names []))) _ ⟨trivial, trivial, trivial⟩
    (step_call (setProc_self ..) rfl hnames rfl) ?_
  have hcomplete : Handler.gotNames w.now (.start m.toDomain) [] =
      .storeSuccess (.start { m.toDomain with status := .success, finishedAt := some w.now }) := by
    simp [Handler.gotNames, Frame.start, Handler.complete,
      DownloadTask.complete_of_running (t := m.toDomain) hs]
  refine .step (.call pid (.done .done)) _ ⟨trivial, trivial, trivial⟩
    (step_call (setProc_self ..) (by
      show (Handler.gotNames w.now (.start m.toDomain) []).call _ = _
      rw [hcomplete]; rfl) rfl (h := .ended none) (by
      show (Handler.gotNames w.now (.start m.toDomain) []).resume sha256 w.now (.ok .done) = _
      rw [hcomplete]; rfl)) (.now ⟨m.assign
        { m.toDomain with status := .success, finishedAt := some w.now }, ?_, rfl⟩)
  show (w.store.tasks.update _).get? _ = _
  rw [TaskTable.get?_update, hm]
  simp [DownloadTaskModel.toDomain, Frame.start]

/-- A worker that has taken the message of a `PENDING` task claims it. -/
theorem can_succeed_of_received {msg : Message} {workerId : String}
    (hp : w.procs pid = .received msg workerId) (hpend : w.Pending msg.taskId) :
    (system sha256).Can Careful (Succeeded msg.taskId) w := by
  obtain ⟨m, hm, hs⟩ := hpend
  have hid := (Table.get?_eq_some.mp hm).2
  have hclaim : TaskTable.claimable msg.taskId m = true := by simp [TaskTable.claimable, hid, hs]
  refine .step (.claim pid .done)
    (({ w.setTasks (w.store.tasks.claim msg.taskId workerId w.now).1 with
      claims := Function.update w.claims msg.taskId (w.claims msg.taskId + 1) }).setProc pid
        (.handling ⟨msg, workerId, .getTask, false⟩))
    ⟨fun e => (by cases e), trivial, trivial⟩ ?_ ?_
  · have hrow : (w.store.tasks.claim msg.taskId workerId w.now).2 =
        some (m.claimed workerId w.now).toDomain := by
      simp [TaskTable.claim, hm, hclaim]
    simp only [system, World.step, World.claim, hp]
    rw [← Prod.eta (w.store.tasks.claim _ _ _), hrow]
    rfl
  · refine can_succeed_of_claimed (k := ⟨msg, workerId, .getTask, false⟩)
      (m := m.claimed workerId w.now) (setProc_self ..) rfl ?_ rfl
    show (w.store.tasks.claim _ _ _).1.get? _ = _
    rw [TaskTable.get?_claim, hm]
    simp [hclaim]

/-- The message of a `PENDING` task is in the queue, and some process is idle. -/
theorem can_succeed_of_queued (hr : (system sha256).Reach System.free w) {msg : Message}
    (hq : msg ∈ w.queue) (hpend : w.Pending msg.taskId) :
    (system sha256).Can Careful (Succeeded msg.taskId) w := by
  obtain ⟨pid, hp⟩ := exists_idle hr
  refine .step (.deliver pid msg "")
    { w.setProc pid (.received msg "") with queue := w.queue.erase msg }
    ⟨trivial, trivial, trivial⟩ ?_ ?_
  · simp [system, World.step, World.deliver, isIdle_eq.mpr hp, hq]
  · have hp : (w.setProc pid (.received msg "")).procs pid = .received msg "" := setProc_self
    exact can_succeed_of_received hp hpend

/-- A process sends the messages that it has left. -/
theorem can_send {todo : List Message} {msg : Message} (hp : w.procs pid = .sending todo)
    (hm : msg ∈ todo) :
    (system sha256).Can Careful (fun w' => msg ∈ w'.queue ∧ w'.store = w.store) w := by
  induction todo generalizing w with
  | nil => cases hm
  | cons m todo ih =>
    let w₁ : World := { w.setProc pid (.sendAll todo) with
      queue := w.queue ++ [m], sent := w.sent ++ [m] }
    refine .step (.send pid) w₁ ⟨trivial, trivial, trivial⟩ ?_ ?_
    · simp [system, World.step, World.send, hp, w₁]
    rcases List.mem_cons.mp hm with rfl | hm
    · exact .now ⟨List.mem_append_right _ (List.mem_singleton_self _), rfl⟩
    · have hp₁ : w₁.procs pid = .sending todo := by
        refine (setProc_self (w := w)).trans ?_
        rw [Proc.sendAll, if_neg (List.ne_nil_of_mem hm)]
      exact ih hp₁ hm

/-- A `PENDING` task has a message that is still going to be claimed. -/
theorem can_succeed_of_pending (hr : (system sha256).Reach NoMessageDropped w)
    (hpend : w.Pending id) : (system sha256).Can Careful (Succeeded id) w := by
  obtain ⟨m, hm, hs⟩ := hpend
  rcases pending_awaited sha256 w hr id m hm hs with ⟨msg, hq, rfl⟩ | ⟨pid, msg, hmem, rfl⟩
  · exact can_succeed_of_queued hr.toFree hq ⟨m, hm, hs⟩
  · cases hp : w.procs pid with
    | received msg' workerId =>
      rw [hp] at hmem
      obtain rfl := List.mem_singleton.mp hmem
      exact can_succeed_of_received hp ⟨m, hm, hs⟩
    | sending todo =>
      rw [hp] at hmem
      refine ((can_send hp hmem).reach (fun _ _ _ => trivial) hr.toFree).trans
        fun w' ⟨⟨hq, hstore⟩, hr'⟩ => ?_
      exact can_succeed_of_queued hr' hq ⟨m, hstore ▸ hm, hs⟩
    | _ => rw [hp] at hmem; cases hmem

/-! ## The watchdog -/

end World

/-- A sub-select may take any row that satisfies its condition. -/
theorem TaskTable.exists_selects {tasks : TaskTable} {p : DownloadTaskModel → Bool} {limit : Nat}
    {id : TaskId} {m : DownloadTaskModel} (hm : tasks.get? id = some m) (hp : p m = true)
    (hl : 0 < limit) : ∃ ids, id ∈ ids ∧ tasks.selects p limit ids = true := by
  obtain ⟨hrow, rfl⟩ := Table.get?_eq_some.mp hm
  let all := (tasks.rows.filter p).map DownloadTaskModel.id
  have hnodup : all.Nodup := ((List.filter_sublist ..).map _).nodup tasks.nodup
  have hall : ∀ x ∈ all, (tasks.get? x).any p = true := by
    intro x hx
    obtain ⟨r, hr, rfl⟩ := List.mem_map.mp hx
    obtain ⟨hr, hpr⟩ := List.mem_filter.mp hr
    rw [Table.get?_mem hr]; exact hpr
  have hid : m.id ∈ all := List.mem_map_of_mem (List.mem_filter.mpr ⟨hrow, hp⟩)
  have hlen : all.length = tasks.rows.countP p := by
    rw [List.length_map, List.countP_eq_length_filter]
  have hsub : ((all.erase m.id).take (limit - 1)).Sublist (all.erase m.id) :=
    List.take_sublist ..
  refine ⟨m.id :: (all.erase m.id).take (limit - 1), List.mem_cons_self, ?_⟩
  have hpos := List.length_pos_of_mem hid
  simp only [selects, Bool.and_eq_true, decide_eq_true_eq, List.all_eq_true, List.nodup_cons,
    List.length_cons, List.length_take, List.length_erase_of_mem hid, List.mem_cons]
  refine ⟨⟨⟨fun hmem => hnodup.not_mem_erase (hsub.subset hmem),
    hsub.nodup (hnodup.erase _)⟩, fun x hx => ?_⟩, by omega⟩
  rcases hx with rfl | hx
  · exact hall _ hid
  · exact hall x (List.mem_of_mem_erase (hsub.subset hx))

namespace World

variable {sha256 : Bytes → Digest} {w w' : World} {id : TaskId} {pid : Pid}

/-- All handlers may crash. -/
theorem can_quiet (hr : (system sha256).Reach System.free w) :
    (system sha256).Can Careful (fun w' => w'.store = w.store ∧ w'.now = w.now ∧
      ∀ pid k, w'.procs pid ≠ .handling k) w := by
  obtain ⟨n, hn⟩ := within_invariant sha256 w hr
  have hquiet : ∀ j, (system sha256).Can Careful (fun w' => w'.store = w.store ∧ w'.now = w.now ∧
      w'.Within n ∧ ∀ pid, pid < j → ∀ k, w'.procs pid ≠ .handling k) w := by
    intro j
    induction j with
    | zero => exact .now ⟨rfl, rfl, hn, fun pid h => absurd h (Nat.not_lt_zero pid)⟩
    | succ j ih =>
      refine ih.trans fun w₁ ⟨hstore, hnow, hn₁, hq⟩ => ?_
      by_cases hj : ∃ k, w₁.procs j = .handling k
      · obtain ⟨k, hk⟩ := hj
        refine .step (.crash j) _ ⟨fun todo e => (by rw [hk] at e; cases e), trivial, trivial⟩ rfl
          (.now ⟨hstore, hnow, fun pid hpid => ?_, fun pid hpid k' => ?_⟩)
        · rw [setProc_procs]; split
          · rfl
          · exact hn₁ pid hpid
        · rw [setProc_procs]; split
          · exact fun e => by cases e
          · next hne => exact hq pid (lt_of_le_of_ne (Nat.lt_succ_iff.mp hpid) hne) k'
      · refine .now ⟨hstore, hnow, hn₁, fun pid hpid k hk => ?_⟩
        rcases Nat.lt_succ_iff_lt_or_eq.mp hpid with h | rfl
        · exact hq pid h k hk
        · exact hj ⟨k, hk⟩
  refine (hquiet n).mono fun w' ⟨hstore, hnow, hn', hq⟩ => ⟨hstore, hnow, fun pid k hk => ?_⟩
  by_cases hlt : pid < n
  · exact hq pid hlt k hk
  · rw [hn' pid (Nat.le_of_not_lt hlt)] at hk; cases hk

/-- Some time may pass. -/
theorem can_wait (u : Time) : (system sha256).Can Careful
    (fun w' => w'.store = w.store ∧ w'.procs = w.procs ∧ u < w'.now) w := by
  have hd : 0 ≤ max 0 (u + 1 - w.now) := le_max_left _ _
  refine .step (.tick (max 0 (u + 1 - w.now))) { w with now := w.now + max 0 (u + 1 - w.now) }
    ⟨trivial, trivial, trivial⟩ (if_pos hd) (.now ⟨rfl, rfl, ?_⟩)
  have := le_max_right 0 (u + 1 - w.now)
  show u < w.now + max 0 (u + 1 - w.now)
  linarith

/-- A `RUNNING` task comes back when its handler is dead and its heartbeat is stale. -/
theorem can_pend_of_running (hr : (system sha256).Reach System.free w) {m : DownloadTaskModel}
    (hm : w.store.tasks.get? id = some m) (hs : m.status = .running) :
    (system sha256).Can Careful (Pending id) w := by
  obtain ⟨t, ht⟩ : ∃ t, m.lastHeartbeat = some t := Option.isSome_iff_exists.mp
    (((DownloadTask.columns_invariant.invariant w hr).rows hm).1.running hs).2.2
  refine ((can_quiet hr).reach (fun _ _ _ => trivial) hr).trans
    fun w₁ ⟨⟨hstore₁, _, hq₁⟩, hr₁⟩ => ?_
  refine ((can_wait (t + maxHeartbeatAge)).reach (fun _ _ _ => trivial) hr₁).trans
    fun w₂ ⟨⟨hstore₂, hprocs₂, hnow⟩, hr₂⟩ => ?_
  have hm₂ : w₂.store.tasks.get? id = some m := by rw [hstore₂, hstore₁, hm]
  have hstuck : m.isStuck (w₂.now - maxHeartbeatAge) = true := by
    have : t < w₂.now - maxHeartbeatAge := by linarith
    simpa [DownloadTaskModel.isStuck, hs, ht] using this
  obtain ⟨ids, hmem, hsel⟩ := TaskTable.exists_selects hm₂ hstuck
    (show 0 < reclaimLimit by decide)
  obtain ⟨pid, hp⟩ := exists_idle hr₂
  refine .step (.reclaimStuck pid ids .done)
    (((w₂.setTasks (w₂.store.tasks.reclaimStuck ids)).release ids).afterCommit pid
      (((w₂.store.tasks.reclaimStuck ids).returning ids).map requeueMessage) .done)
    ⟨fun e => (by cases e), fun q k hq _ => ?_, trivial⟩ ?_ (.now ⟨m.releasedStuck, ?_, rfl⟩)
  · rw [hprocs₂] at hq; exact absurd hq (hq₁ q k)
  · simp [system, World.step, World.reclaimStuck, isIdle_eq.mpr hp, hsel]
  · show (w₂.store.tasks.reclaimStuck ids).get? id = _
    rw [TaskTable.get?_reclaimStuck, hm₂]
    simp [(Table.get?_eq_some.mp hm).2, hmem]

/-- A `BLOCKED` task comes back after its time. -/
theorem can_pend_of_blocked (hr : (system sha256).Reach System.free w) {m : DownloadTaskModel}
    (hm : w.store.tasks.get? id = some m) (hs : m.status = .blocked) :
    (system sha256).Can Careful (Pending id) w := by
  obtain ⟨u, hu⟩ : ∃ u, m.blockedUntil = some u := Option.isSome_iff_exists.mp
    (((DownloadTask.columns_invariant.invariant w hr).rows hm).1.blocked.mp hs)
  refine ((can_wait u).reach (fun _ _ _ => trivial) hr).trans
    fun w₁ ⟨⟨hstore, _, hnow⟩, hr₁⟩ => ?_
  have hm₁ : w₁.store.tasks.get? id = some m := by rw [hstore, hm]
  have hrel : m.isReleasable w₁.now = true := by
    simpa [DownloadTaskModel.isReleasable, hs, hu] using hnow
  obtain ⟨ids, hmem, hsel⟩ := TaskTable.exists_selects hm₁ hrel
    (show 0 < reclaimLimit by decide)
  obtain ⟨pid, hp⟩ := exists_idle hr₁
  refine .step (.reclaimBlocked pid ids .done)
    ((w₁.setTasks (w₁.store.tasks.reclaimBlocked ids)).afterCommit pid
      (((w₁.store.tasks.reclaimBlocked ids).returning ids).map requeueMessage) .done)
    ⟨fun e => (by cases e), trivial, trivial⟩ ?_ (.now ⟨m.releasedBlocked, ?_, rfl⟩)
  · simp [system, World.step, World.reclaimBlocked, isIdle_eq.mpr hp, hsel]
  · show (w₁.store.tasks.reclaimBlocked ids).get? id = _
    rw [TaskTable.get?_reclaimBlocked, hm₁]
    simp [(Table.get?_eq_some.mp hm).2, hmem]

end World

/-- **Every unfinished task can still be finished.** In every state that is reached while no message
is dropped, each task that is `PENDING`, `RUNNING` or `BLOCKED` can come to `SUCCESS`: some run from
there, without a dropped message or one that is delivered again and without a reclaim of a task of a
running handler, leads to a state in which its row is `SUCCESS`. -/
theorem unfinished_can_succeed (sha256 : Bytes → Digest) :
    (system sha256).Invariant NoMessageDropped fun w => ∀ id m, w.store.tasks.get? id = some m →
      m.status ≠ .success → m.status ≠ .failed →
      ∃ ls w', (system sha256).Guarded Careful w ls ∧ (system sha256).run w ls = some w' ∧
        ∃ m', w'.store.tasks.get? id = some m' ∧ m'.status = .success := by
  intro w hr id m hm hs hf
  have hpend : (system sha256).Can Careful (Pending id) w := by
    cases hst : m.status with
    | pending => exact .now ⟨m, hm, hst⟩
    | running => exact can_pend_of_running hr.toFree hm hst
    | blocked => exact can_pend_of_blocked hr.toFree hm hst
    | success => exact absurd hst hs
    | failed => exact absurd hst hf
  exact ((hpend.reach (fun _ _ h => h.1) hr).trans
    fun w₁ ⟨hp, hr₁⟩ => can_succeed_of_pending hr₁ hp).exists_run

end FileExtractor

import FileExtractor.Worker.Effects

/-!
# What a reclaim does

Both reclaims are an `UPDATE` of the rows whose ids a sub-select has given, so one law covers them
(`reclaimed_modify`): they change the rows that they return and no other, and these are as many
eligible rows as the limit allows. The watchdog then sends one message for each of them
(`sends_todo`), as long as it does not die and no `send_task` raises.
-/

namespace FileExtractor

open Lts World Rel

namespace DownloadTaskModel

/-- What a reclaim leaves of a row. -/
structure Released (m m' : DownloadTaskModel) : Prop where
  status : m'.status = .pending
  workerId : m'.workerId = none
  blockedUntil : m'.blockedUntil = none
  blockReason : m'.blockReason = none
  id : m'.id = m.id
  candidateId : m'.candidateId = m.candidateId
  receivedFiles : m'.receivedFiles = m.receivedFiles
  processedFiles : m'.processedFiles = m.processedFiles
  attempts : m'.attempts = m.attempts
  error : m'.error = m.error
  startedAt : m'.startedAt = m.startedAt

theorem released_releasedStuck (m : DownloadTaskModel) : Released m m.releasedStuck :=
  ⟨rfl, rfl, rfl, rfl, rfl, rfl, rfl, rfl, rfl, rfl, rfl⟩

theorem released_releasedBlocked (m : DownloadTaskModel) : Released m m.releasedBlocked :=
  ⟨rfl, rfl, rfl, rfl, rfl, rfl, rfl, rfl, rfl, rfl, rfl⟩

end DownloadTaskModel

namespace TaskTable

open DownloadTaskModel

/-- A statement has reclaimed `returned`, up to `limit` rows with `p`, and changed no other row. -/
structure Reclaimed (tasks : TaskTable) (p : DownloadTaskModel → Bool) (limit : Nat)
    (tasks' : TaskTable) (returned : List DownloadTask) : Prop where
  count : returned.length = min limit (tasks.rows.countP p)
  distinct : (returned.map DownloadTask.id).Nodup
  changed : ∀ id, id ∈ returned.map DownloadTask.id ↔ tasks'.get? id ≠ tasks.get? id
  released : ∀ t ∈ returned, ∃ m m', tasks.get? t.id = some m ∧ p m = true ∧
    tasks'.get? t.id = some m' ∧ Released m m' ∧ t = m'.toDomain

variable {tasks : TaskTable} {p : DownloadTaskModel → Bool} {limit : Nat} {ids : List TaskId}
  {f : DownloadTaskModel → DownloadTaskModel} {hf : ∀ m, (f m).id = m.id}

/-- The rows of the ids are returned, in the order of the ids. -/
theorem returning_ids {tasks' : TaskTable} (h : ∀ id ∈ ids, ∃ m, tasks'.get? id = some m) :
    (tasks'.returning ids).map DownloadTask.id = ids := by
  unfold returning
  induction ids with
  | nil => rfl
  | cons id ids ih =>
    obtain ⟨m, hm⟩ := h id List.mem_cons_self
    have hget : tasks'.getById id = some m.toDomain := by rw [getById, hm]; rfl
    rw [List.filterMap_cons_some hget, List.map_cons,
      ih fun id' hid => h id' (List.mem_cons_of_mem id hid)]
    exact congrArg (· :: ids) (Table.get?_eq_some.mp hm).2

/-- **The law of both statements.** -/
theorem reclaimed_modify (hsel : tasks.selects p limit ids = true)
    (hrel : ∀ m, Released m (f m)) (hp : ∀ m, p m = true → m.status ≠ .pending) :
    Reclaimed tasks p limit (tasks.modify (fun m => ids.contains m.id) f hf)
      (returning (tasks.modify (fun m => ids.contains m.id) f hf) ids) := by
  have hget : ∀ id ∈ ids, ∃ m, tasks.get? id = some m ∧ p m = true ∧
      (tasks.modify (fun m => ids.contains m.id) f hf).get? id = some (f m) := by
    intro id hid
    obtain ⟨m, hm, hpm⟩ := selects_row hsel hid
    refine ⟨m, hm, hpm, ?_⟩
    rw [Table.get?_modify, hm, Option.map_some, if_pos]
    rw [(Table.get?_eq_some.mp hm).2]
    exact List.contains_iff_mem.mpr hid
  have hids : (returning (tasks.modify (fun m => ids.contains m.id) f hf) ids).map
      DownloadTask.id = ids :=
    returning_ids fun id hid => ⟨_, (hget id hid).choose_spec.2.2⟩
  simp only [selects, Bool.and_eq_true, decide_eq_true_eq] at hsel
  refine ⟨?_, by rw [hids]; exact hsel.1.1, fun id => ?_, fun t ht => ?_⟩
  · rw [← hsel.2, ← congrArg List.length hids, List.length_map]
  · rw [hids]
    constructor
    · intro hid he
      obtain ⟨m, hm, hpm, hm'⟩ := hget id hid
      rw [hm, hm', Option.some.injEq] at he
      exact hp m hpm (he ▸ (hrel m).status)
    · intro hne
      by_contra hid
      refine hne ?_
      rw [Table.get?_modify]
      cases hm : tasks.get? id with
      | none => rfl
      | some m =>
        rw [Option.map_some, if_neg]
        rw [(Table.get?_eq_some.mp hm).2]
        exact fun hc => hid (List.contains_iff_mem.mp hc)
  · obtain ⟨id, hid, ht⟩ := List.mem_filterMap.mp ht
    obtain ⟨m, hm, hpm, hm'⟩ := hget id hid
    rw [getById, hm', Option.map_some, Option.some.injEq] at ht
    subst ht
    have hid' : (f m).toDomain.id = id := (Table.get?_eq_some.mp hm').2
    rw [hid']
    exact ⟨m, f m, hm, hpm, hm', hrel m, rfl⟩

theorem reclaimed_stuck {cutoff : Time} (hsel : tasks.selects (isStuck cutoff) limit ids = true) :
    Reclaimed tasks (isStuck cutoff) limit (tasks.reclaimStuck ids)
      ((tasks.reclaimStuck ids).returning ids) :=
  reclaimed_modify hsel released_releasedStuck fun m h e => by
    rw [running_of_isStuck h] at e; cases e

theorem reclaimed_blocked {now : Time} (hsel : tasks.selects (isReleasable now) limit ids = true) :
    Reclaimed tasks (isReleasable now) limit (tasks.reclaimBlocked ids)
      ((tasks.reclaimBlocked ids).returning ids) :=
  reclaimed_modify hsel released_releasedBlocked fun m h e => by
    rw [blocked_of_isReleasable h] at e; cases e

end TaskTable

/-! ## The messages -/

variable {sha256 : Bytes → Digest} {pid : Pid} {w w' : World} {l : Label}

/-- The message that a step of `pid` sends. -/
def sentIn (pid : Pid) (w : World) : Label → List Message
  | .send q => if q = pid then
      match w.procs pid with
      | .sending (m :: _) => [m]
      | _ => []
    else []
  | _ => []

/-- The messages that `pid` sends in a run. -/
def sentBy (sha256 : Bytes → Digest) (pid : Pid) : World → List Label → List Message
  | _, [] => []
  | w, l :: ls => sentIn pid w l ++
      ((system sha256).step w l).elim [] fun w' => sentBy sha256 pid w' ls

/-- `pid` does not die, and its `send_task` does not raise. -/
def Label.delivers (pid : Pid) : Label → Prop
  | .sendFails q | .crash q => q ≠ pid
  | _ => True

/-- A process with messages to send sends the first one, or waits. -/
theorem Step.sending (h : Step sha256 w l w') (hl : l.delivers pid) {m : Message}
    {todo : List Message} (hp : w.procs pid = .sending (m :: todo)) :
    ∃ rest, w'.procs pid = .sendAll rest ∧ m :: todo = sentIn pid w l ++ rest := by
  -- a step of another process
  have other : ∀ {q : Pid} {p : Proc} {v : World}, v.procs = w.procs → w.procs q ≠ w.procs pid →
      (v.setProc q p).procs pid = .sendAll (m :: todo) := by
    intro q p v hv hne
    rw [setProc_ne fun e => hne (by rw [e]), hv, hp]
    rfl
  have commit : ∀ {q : Pid} {v : World} {more : List Message} {fate : Fate},
      w.procs q = .idle → v.procs pid = .sending (m :: todo) →
      (v.afterCommit q more fate).procs pid = .sendAll (m :: todo) := by
    intro q v more fate hq hv
    rw [afterCommit_procs, if_neg, hv]
    · rfl
    · rintro ⟨-, rfl⟩; rw [hq] at hp; cases hp
  cases h with
  | tick d hd => exact ⟨m :: todo, hp, rfl⟩
  | refused l hl' => exact ⟨m :: todo, hp, by cases l <;> first | rfl | cases hl'⟩
  | start q taskId candidateId fate tasks hq hf ht =>
    exact ⟨_, commit (v := w.setTasks tasks) hq hp, rfl⟩
  | send q m' todo' hq =>
    by_cases e : q = pid
    · subst e
      rw [hp] at hq
      cases hq
      refine ⟨todo, setProc_self, ?_⟩
      simp [sentIn, hp]
    · refine ⟨_, ?_, by simp [sentIn, e]; rfl⟩
      show (w.setProc q _).procs pid = _
      rw [setProc_ne (Ne.symm e), hp]
      rfl
  | sendFails q todo' hq =>
    refine ⟨_, ?_, rfl⟩
    rw [setProc_ne (Ne.symm hl), hp]
    rfl
  | redeliver m' hm => exact ⟨m :: todo, hp, rfl⟩
  | deliver q m' workerId hq hm =>
    exact ⟨_, other (v := w) rfl (by rw [hq, hp]; nofun), rfl⟩
  | claimFails q m' workerId fate hq hn =>
    exact ⟨_, other (v := w) rfl (by rw [hq, hp]; nofun), rfl⟩
  | claimed q m' workerId fate row hq hf hrow hs =>
    exact ⟨_, other rfl (by rw [hq, hp]; nofun), rfl⟩
  | call q reply k c store hd hq hc hs hr =>
    exact ⟨_, other (v := { w with store := store }) rfl (by rw [hq, hp]; nofun), rfl⟩
  | ackReturned q m' hq => exact ⟨_, other (v := w) rfl (by rw [hq, hp]; nofun), rfl⟩
  | ackEnded q k hq he => exact ⟨_, other (v := w) rfl (by rw [hq, hp]; nofun), rfl⟩
  | reclaimStuck q ids fate hq hf hsel =>
    refine ⟨_, commit hq ?_, rfl⟩
    show (w.procs pid).release ids = _
    rw [hp]; rfl
  | reclaimBlocked q ids fate hq hf hsel =>
    exact ⟨_, commit (v := w.setTasks _) hq hp, rfl⟩
  | crash q =>
    refine ⟨_, ?_, rfl⟩
    rw [setProc_ne (Ne.symm hl)]
    exact hp

/-- **The messages of a commit** are sent in order: those sent and those left are all of them. -/
theorem sends_todo {ls : List Label} {todo : List Message}
    (hrun : (system sha256).run w ls = some w') (hls : ∀ l ∈ ls, l.delivers pid)
    (hbusy : ∀ pre u, pre <+: ls → pre ≠ ls → (system sha256).run w pre = some u →
      u.procs pid ≠ .idle) (hp : w.procs pid = .sendAll todo) :
    ∃ rest, w'.procs pid = .sendAll rest ∧ todo = sentBy sha256 pid w ls ++ rest := by
  induction ls generalizing w todo with
  | nil =>
    cases hrun
    exact ⟨todo, hp, rfl⟩
  | cons l ls ih =>
    obtain ⟨u, hu, hrun⟩ := System.run_cons_eq_some.mp hrun
    cases todo with
    | nil => exact absurd hp (hbusy [] w (List.nil_prefix) nofun rfl)
    | cons m todo =>
      obtain ⟨rest, hu', hsent⟩ := (Step.of_step hu : Step sha256 w l u).sending
        (hls l List.mem_cons_self) hp
      obtain ⟨rest', hw', hrest⟩ := ih hrun (fun l' hl' => hls l' (List.mem_cons_of_mem l hl'))
        (fun pre v hpre hne hv => hbusy (l :: pre) v (List.cons_prefix_cons.mpr ⟨rfl, hpre⟩)
          (fun e => hne (List.cons.inj e).2) (by rw [System.run_cons, hu]; exact hv)) hu'
      refine ⟨rest', hw', ?_⟩
      rw [sentBy, hu, Option.elim_some, List.append_assoc, ← hrest, hsent]

/-- One of the two watchdog tasks, up to its commit. -/
inductive Label.IsReclaim (pid : Pid) (ids : List TaskId) : Label → Prop
  | stuck : IsReclaim pid ids (.reclaimStuck pid ids .done)
  | blocked : IsReclaim pid ids (.reclaimBlocked pid ids .done)

/-- After its commit the watchdog has one message to send for each row that it has reclaimed. -/
theorem Step.reclaimed {ids : List TaskId} (h : Step sha256 w l w') (hl : l.IsReclaim pid ids) :
    w'.procs pid = .sendAll ((w'.store.tasks.returning ids).map requeueMessage) := by
  cases hl with
  | stuck =>
    cases h with
    | refused l hl => cases hl
    | reclaimStuck pid ids fate hp hf hsel => rw [afterCommit_procs, if_pos ⟨rfl, rfl⟩]; rfl
  | blocked =>
    cases h with
    | refused l hl => cases hl
    | reclaimBlocked pid ids fate hp hf hsel => rw [afterCommit_procs, if_pos ⟨rfl, rfl⟩]; rfl

theorem watchdog_sends {ids : List TaskId} {ls : List Label} {w₁ w₂ : World}
    (hl : l.IsReclaim pid ids) (hst : (system sha256).step w l = some w₁)
    (hrun : (system sha256).run w₁ ls = some w₂) (hls : ∀ l ∈ ls, l.delivers pid)
    (hbusy : ∀ pre u, pre <+: ls → pre ≠ ls → (system sha256).run w₁ pre = some u →
      u.procs pid ≠ .idle) (hend : w₂.procs pid = .idle) :
    sentBy sha256 pid w₁ ls = (w₁.store.tasks.returning ids).map requeueMessage := by
  obtain ⟨rest, hrest, hsent⟩ := sends_todo hrun hls hbusy
    ((Step.of_step hst : Step sha256 w l w₁).reclaimed hl)
  rw [hend] at hrest
  cases rest with
  | nil => rw [hsent, List.append_nil]
  | cons m rest => cases hrest

/-- **A reclaim is exact.** Both statements obey the law, and if the watchdog does not die and no
`send_task` of it raises, it sends one message for each returned row, with its id, until it is
done. -/
theorem reclaim_exact (sha256 : Bytes → Digest) :
    (∀ (tasks : TaskTable) (now age : Time) (limit : Nat) (ids : List TaskId),
      tasks.selects (DownloadTaskModel.isStuck (now - age)) limit ids = true →
      TaskTable.Reclaimed tasks (DownloadTaskModel.isStuck (now - age)) limit
        (tasks.reclaimStuck ids) ((tasks.reclaimStuck ids).returning ids)) ∧
    (∀ (tasks : TaskTable) (now : Time) (limit : Nat) (ids : List TaskId),
      tasks.selects (DownloadTaskModel.isReleasable now) limit ids = true →
      TaskTable.Reclaimed tasks (DownloadTaskModel.isReleasable now) limit
        (tasks.reclaimBlocked ids) ((tasks.reclaimBlocked ids).returning ids)) ∧
    (∀ (w w₁ w₂ : World) (pid : Pid) (ids : List TaskId) (l : Label) (ls : List Label),
      l.IsReclaim pid ids → (system sha256).step w l = some w₁ →
      (system sha256).run w₁ ls = some w₂ → (∀ l ∈ ls, l.delivers pid) →
      (∀ pre u, pre <+: ls → pre ≠ ls → (system sha256).run w₁ pre = some u →
        u.procs pid ≠ .idle) → w₂.procs pid = .idle →
      sentBy sha256 pid w₁ ls = (w₁.store.tasks.returning ids).map requeueMessage) :=
  ⟨fun _ _ _ _ _ h => TaskTable.reclaimed_stuck h, fun _ _ _ _ h => TaskTable.reclaimed_blocked h,
    fun _ _ _ _ _ _ _ hl hst hrun hls hbusy hend =>
      watchdog_sends hl hst hrun hls hbusy hend⟩

/-- One of two tasks has a stale heartbeat. -/
theorem reclaim_exact_one :
    let started : DownloadTask :=
      { DownloadTask.new "t" "c" with status := .running, lastHeartbeat := some 0 }
    let fresh : DownloadTask :=
      { DownloadTask.new "u" "c" with status := .running, lastHeartbeat := some 900 }
    let tasks : TaskTable := ⟨[started.toModel, fresh.toModel], by decide⟩
    TaskTable.Reclaimed tasks (DownloadTaskModel.isStuck (1000 - 300)) 20
        (tasks.reclaimStuck ["t"]) ((tasks.reclaimStuck ["t"]).returning ["t"]) ∧
      ((tasks.reclaimStuck ["t"]).returning ["t"]).map DownloadTask.status = [.pending] :=
  ⟨(reclaim_exact fun _ => 0).1 _ 1000 300 20 ["t"] (by decide +kernel), by decide +kernel⟩

end FileExtractor

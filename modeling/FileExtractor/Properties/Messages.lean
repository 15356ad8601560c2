import FileExtractor.Infrastructure.CatalogClient
import FileExtractor.Worker.Effects

/-!
# Messages and their tasks

A message is sent after the commit of its row, and rows are never deleted, so every message that is
queued, delivered, sent or left to send is of a stored task (`MessagesKnown`): no worker ever finds
its task missing. The column `candidate_id` is written once, and `_requeue_task` turns an empty one
into `None`; both give the same headers, so all attempts at a task ask the API for one candidate.
-/

namespace FileExtractor

open Rel Lts World

/-- The messages that the process has left to send. -/
def Proc.unsent : Proc → List Message
  | .sending todo => todo
  | _ => []

@[simp] theorem Proc.unsent_sendAll (todo : List Message) : (Proc.sendAll todo).unsent = todo := by
  unfold sendAll
  split
  · next h => rw [h]; rfl
  · rfl

@[simp] theorem Proc.unsent_release (ids : List TaskId) (p : Proc) :
    (p.release ids).unsent = p.unsent := by
  cases p <;> rfl

@[simp] theorem Proc.message_release (ids : List TaskId) (p : Proc) :
    (p.release ids).message = p.message := by
  cases p <;> rfl

@[simp] theorem Proc.message_sendAll (todo : List Message) :
    (Proc.sendAll todo).message = none := by
  unfold sendAll; split <;> rfl

namespace World

/-- A process has the message left to send. -/
def Unsent (w : World) (m : Message) : Prop := ∃ pid, m ∈ (w.procs pid).unsent

/-- The message has been sent, or a process has it left to send. -/
def Issued (w : World) (m : Message) : Prop := m ∈ w.sent ∨ w.Unsent m

/-- The message is in the queue, or a process has taken it. -/
def Carried (w : World) (m : Message) : Prop :=
  m ∈ w.queue ∨ ∃ pid, (w.procs pid).message = some m

/-- The task of the message is stored, with its candidate. -/
def Known (w : World) (m : Message) : Prop :=
  ∃ row, w.store.tasks.get? m.taskId = some row ∧ row.candidateId = m.candidateId.getD ""

structure MessagesKnown (w : World) : Prop where
  sent : ∀ {m}, w.Carried m → m ∈ w.sent
  known : ∀ {m}, w.Issued m → w.Known m

variable {sha256 : Bytes → Digest} {w w' : World} {l : Label} {m : Message}

theorem requeueMessage_known {ids : List TaskId} {tasks : TaskTable}
    (hm : m ∈ (tasks.returning ids).map requeueMessage) :
    ∃ row, tasks.get? m.taskId = some row ∧ row.candidateId = m.candidateId.getD "" ∧
      m.taskId ∈ ids := by
  obtain ⟨t, ht, rfl⟩ := List.mem_map.mp hm
  obtain ⟨id, hid, hget⟩ := List.mem_filterMap.mp ht
  obtain ⟨row, hrow, rfl⟩ := Option.map_eq_some_iff.mp hget
  obtain rfl := (Table.get?_eq_some.mp hrow).2
  refine ⟨row, hrow, ?_, hid⟩
  show row.candidateId = (if row.candidateId = "" then none else some row.candidateId).getD ""
  by_cases h : row.candidateId = ""
  · rw [if_pos h, h]; rfl
  · rw [if_neg h]; rfl

/-! ## The messages of one process -/

theorem unsent_update {pid : Pid} {p : Proc} (hp : w'.procs = Function.update w.procs pid p)
    (h : w'.Unsent m) : w.Unsent m ∨ m ∈ p.unsent := by
  obtain ⟨q, h⟩ := h
  rw [hp, Function.update_apply] at h
  split at h
  · exact .inr h
  · exact .inl ⟨q, h⟩

theorem carried_update {pid : Pid} {p : Proc} (hp : w'.procs = Function.update w.procs pid p)
    (h : w'.Carried m) : m ∈ w'.queue ∨ w.Carried m ∨ p.message = some m := by
  rcases h with h | ⟨q, h⟩
  · exact .inl h
  rw [hp, Function.update_apply] at h
  split at h
  · exact .inr (.inr h)
  · exact .inr (.inl (.inr ⟨q, h⟩))

/-- The messages of a transaction of an idle process. -/
theorem unsent_afterCommit {pid : Pid} {todo : List Message} {fate : Fate} {v : World}
    (h : (v.afterCommit pid todo fate).Unsent m) : v.Unsent m ∨ m ∈ todo := by
  obtain ⟨q, h⟩ := h
  rw [afterCommit_procs] at h
  split at h
  · rw [Proc.unsent_sendAll] at h; exact .inr h
  · exact .inl ⟨q, h⟩

theorem carried_afterCommit {pid : Pid} {todo : List Message} {fate : Fate} {v : World}
    (h : (v.afterCommit pid todo fate).Carried m) : v.Carried m := by
  rcases h with h | ⟨q, h⟩
  · exact .inl h
  rw [afterCommit_procs] at h
  split at h
  · simp at h
  · exact .inr ⟨q, h⟩

end World

namespace Step

variable {sha256 : Bytes → Digest} {w w' : World} {l : Label} {m : Message}

/-- The candidate of a row stays. -/
theorem candidate_kept (h : Step sha256 w l w') {id : TaskId} {row : DownloadTaskModel}
    (hrow : w.store.tasks.get? id = some row) :
    ∃ row', w'.store.tasks.get? id = some row' ∧ row'.candidateId = row.candidateId := by
  obtain ⟨row', hrow'⟩ := h.row_persists hrow
  have hr := h.rowStep hrow'
  rw [hrow] at hr
  refine ⟨row', hrow', ?_⟩
  cases hr <;> rfl

/-- A message that is left to send was so before, or the transaction that makes its row `PENDING`
has just committed. -/
theorem unsent (h : Step sha256 w l w') (hm : w'.Unsent m) : w.Unsent m ∨
    w'.Known m ∧ ∀ row, w.store.tasks.get? m.taskId = some row → row.status ≠ .pending := by
  -- a process that has nothing left to send
  have other : ∀ {v : World} {pid : Pid} {p : Proc}, v.Unsent m →
      v.procs = Function.update w.procs pid p → p.unsent = [] → w.Unsent m := by
    intro v pid p hv hp hn
    rcases unsent_update hp hv with h | h
    · exact h
    · rw [hn] at h; cases h
  cases h with
  | tick d hd => exact .inl hm
  | refused l hl => exact .inl hm
  | redeliver m' hm' => exact .inl hm
  | start pid taskId candidateId fate tasks hp hf ht =>
    rcases unsent_afterCommit hm with h | h
    · exact .inl h
    · obtain rfl := List.mem_singleton.mp h
      refine .inr ⟨⟨(DownloadTask.new taskId (candidateId.getD "")).toModel, ?_, rfl⟩, ?_⟩
      · show tasks.get? taskId = _
        rw [TaskTable.get?_add ht]
        exact if_pos rfl
      · intro row hrow
        have hnone : w.store.tasks.get? taskId = none := (Table.insert?_eq_some ht).1
        rw [hnone] at hrow; cases hrow
  | send pid m' todo hp =>
    rcases unsent_update (w := w) rfl hm with h | h
    · exact .inl h
    · rw [Proc.unsent_sendAll] at h
      exact .inl ⟨pid, by rw [hp]; exact List.mem_cons_of_mem m' h⟩
  | sendFails pid todo hp => exact .inl (other hm rfl rfl)
  | deliver pid m' workerId hp hq => exact .inl (other hm rfl rfl)
  | claimFails pid m' workerId fate hp hn => exact .inl (other hm rfl rfl)
  | claimed pid m' workerId fate row hp hf hrow hs =>
    refine .inl (other hm rfl ?_)
    split <;> rfl
  | call pid reply k c store handler hp hc hs hr => exact .inl (other hm rfl rfl)
  | ackReturned pid m' hp => exact .inl (other hm rfl rfl)
  | ackEnded pid k hp he => exact .inl (other hm rfl rfl)
  | reclaimStuck pid ids fate hp hf hsel =>
    rcases unsent_afterCommit hm with ⟨q, h⟩ | h
    · rw [show World.procs _ q = (w.procs q).release ids from rfl, Proc.unsent_release] at h
      exact .inl ⟨q, h⟩
    · obtain ⟨row, hrow, hcand, hmem⟩ := requeueMessage_known h
      obtain ⟨row₀, hrow₀, hstuck⟩ := TaskTable.selects_row hsel hmem
      refine .inr ⟨⟨row, hrow, hcand⟩, fun r hr => ?_⟩
      rw [hrow₀] at hr; cases hr
      rw [DownloadTaskModel.running_of_isStuck hstuck]; decide
  | reclaimBlocked pid ids fate hp hf hsel =>
    rcases unsent_afterCommit hm with h | h
    · exact .inl h
    · obtain ⟨row, hrow, hcand, hmem⟩ := requeueMessage_known h
      obtain ⟨row₀, hrow₀, hrel⟩ := TaskTable.selects_row hsel hmem
      refine .inr ⟨⟨row, hrow, hcand⟩, fun r hr => ?_⟩
      rw [hrow₀] at hr; cases hr
      rw [DownloadTaskModel.blocked_of_isReleasable hrel]; decide
  | crash pid => exact .inl (other hm rfl rfl)

/-- What is sent was left to send. -/
theorem sent (h : Step sha256 w l w') (hm : m ∈ w'.sent) : m ∈ w.sent ∨ w.Unsent m := by
  cases h with
  | send pid m' todo hp =>
    rcases List.mem_append.mp hm with h | h
    · exact .inl h
    · exact .inr ⟨pid, by rw [hp]; exact List.mem_cons.mpr (.inl (List.mem_singleton.mp h))⟩
  | _ => exact .inl hm

/-- A message that is issued was so before, or the transaction that makes its row `PENDING` has
just committed. -/
theorem issued (h : Step sha256 w l w') (hm : w'.Issued m) : w.Issued m ∨
    w'.Known m ∧ ∀ row, w.store.tasks.get? m.taskId = some row → row.status ≠ .pending := by
  rcases hm with hm | hm
  · exact .inl (h.sent hm)
  · exact (h.unsent hm).imp_left .inr

theorem sent_mono (h : Step sha256 w l w') (hm : m ∈ w.sent) : m ∈ w'.sent := by
  cases h with
  | send pid m' todo hp => exact List.mem_append_left _ hm
  | _ => exact hm

/-- A message that is queued or taken was so before, or it has just been sent, or it is delivered
again. -/
theorem carried (h : Step sha256 w l w') (hm : w'.Carried m) :
    w.Carried m ∨ (w.Unsent m ∧ m ∈ w'.sent) ∨ (l = .redeliver m ∧ m ∈ w.sent) := by
  have other : ∀ {v : World} {pid : Pid} {p : Proc}, v.Carried m →
      v.procs = Function.update w.procs pid p → (∀ x ∈ v.queue, w.Carried x) →
      (∀ x, p.message = some x → w.Carried x) → w.Carried m := by
    intro v pid p hv hp hq hn
    rcases carried_update hp hv with h | h | h
    · exact hq m h
    · exact h
    · exact hn m h
  have queued : ∀ x ∈ w.queue, w.Carried x := fun x hx => .inl hx
  have taken : ∀ {pid : Pid} {x : Message}, (w.procs pid).message = some x → w.Carried x :=
    fun h => .inr ⟨_, h⟩
  cases h with
  | tick d hd => exact .inl hm
  | refused l hl => exact .inl hm
  | redeliver m' hm' =>
    rcases hm with h | h
    · rcases List.mem_append.mp h with h | h
      · exact .inl (.inl h)
      · obtain rfl := List.mem_singleton.mp h
        exact .inr (.inr ⟨rfl, hm'⟩)
    · exact .inl (.inr h)
  | start pid taskId candidateId fate tasks hp hf ht => exact .inl (carried_afterCommit hm)
  | send pid m' todo hp =>
    rcases carried_update (w := w) rfl hm with h | h | h
    · rcases List.mem_append.mp h with hq | hnew
      · exact .inl (.inl hq)
      · refine .inr (.inl ⟨⟨pid, ?_⟩, List.mem_append_right _ hnew⟩)
        rw [hp]
        exact List.mem_cons.mpr (.inl (List.mem_singleton.mp hnew))
    · exact .inl h
    · rw [Proc.message_sendAll] at h; cases h
  | sendFails pid todo hp => exact .inl (other hm rfl queued fun x hx => (by cases hx))
  | deliver pid m' workerId hp hq =>
    refine .inl (other hm rfl (fun x hx => .inl (List.mem_of_mem_erase hx)) fun x hx => ?_)
    cases hx; exact .inl hq
  | claimFails pid m' workerId fate hp hn =>
    exact .inl (other hm rfl queued fun x hx => taken (by rw [hp]; exact hx))
  | claimed pid m' workerId fate row hp hf hrow hs =>
    refine .inl (other hm rfl queued fun x hx => @taken pid x ?_)
    rw [hp]
    split at hx <;> exact hx
  | call pid reply k c store handler hp hc hs hr =>
    exact .inl (other hm rfl queued fun x hx => @taken pid x (by rw [hp]; exact hx))
  | ackReturned pid m' hp => exact .inl (other hm rfl queued fun x hx => (by cases hx))
  | ackEnded pid k hp he => exact .inl (other hm rfl queued fun x hx => (by cases hx))
  | reclaimStuck pid ids fate hp hf hsel =>
    rcases carried_afterCommit hm with h | ⟨q, h⟩
    · exact .inl (.inl h)
    · rw [show World.procs _ q = (w.procs q).release ids from rfl, Proc.message_release] at h
      exact .inl (.inr ⟨q, h⟩)
  | reclaimBlocked pid ids fate hp hf hsel => exact .inl (carried_afterCommit hm)
  | crash pid =>
    refine .inl (other hm rfl (fun x hx => ?_) fun x hx => (by cases hx))
    rcases List.mem_append.mp hx with h | h
    · exact .inl h
    · exact taken (Option.mem_toList.mp h)

end Step

/-- **The messages are known.** -/
theorem messages_known (sha256 : Bytes → Digest) :
    (system sha256).Invariant System.free MessagesKnown := by
  refine System.Reach.induct ?_ fun w l w' _ hw _ hst => ?_
  · rintro w ⟨now, bucket, rfl⟩
    constructor
    all_goals
      rintro m (h | ⟨pid, h⟩) <;> cases h
  · have h := Step.of_step hst
    constructor
    · intro m hm
      rcases h.carried hm with hm | ⟨-, hm⟩ | ⟨-, hm⟩
      · exact h.sent_mono (hw.sent hm)
      · exact hm
      · exact h.sent_mono hm
    · intro m hm
      rcases h.issued hm with hm | ⟨hm, -⟩
      · obtain ⟨row, hrow, hcand⟩ := hw.known hm
        obtain ⟨row', hrow', hcand'⟩ := h.candidate_kept hrow
        exact ⟨row', hrow', hcand'.trans hcand⟩
      · exact hm

/-- The candidate is read as a text that may be empty. -/
theorem buildHeaders_congr {setting c c' : Option String} (h : c.getD "" = c'.getD "") :
    buildHeaders setting c = buildHeaders setting c' := by
  simp only [buildHeaders, h]

/-- **Every message is of a stored task**, and asks the API for its candidate. In every reachable
state a message that is sent, left to send, queued or taken has a row, whose `candidate_id` gives
the same headers as the message; so a handler that reads its task is never told that there is none.
And no step takes a row away or changes its candidate. -/
theorem messages_of_stored_tasks (sha256 : Bytes → Digest) (setting : Option String) :
    (system sha256).Invariant System.free (fun w =>
      (∀ m, w.Issued m ∨ w.Carried m → ∃ row, w.store.tasks.get? m.taskId = some row ∧
        buildHeaders setting m.candidateId = buildHeaders setting (some row.candidateId)) ∧
      ∀ pid k, w.procs pid = .handling k → k.handler = .getTask →
        w.step sha256 (.call pid (.done (.task none))) = none) ∧
    (system sha256).Keeps System.free fun w _ w' => ∀ id row,
      w.store.tasks.get? id = some row →
        ∃ row', w'.store.tasks.get? id = some row' ∧ row'.candidateId = row.candidateId := by
  refine ⟨fun w hr => ?_, fun w l w' _ _ hst id row => (Step.of_step hst).candidate_kept⟩
  have hw := messages_known sha256 w hr
  have hrow : ∀ m, w.Issued m ∨ w.Carried m → w.Known m := fun m hm =>
    hw.known (hm.elim (fun h => h) fun h => .inl (hw.sent h))
  refine ⟨fun m hm => ?_, fun pid k hp hk => ?_⟩
  · obtain ⟨row, hget, hcand⟩ := hrow m hm
    exact ⟨row, hget, buildHeaders_congr hcand.symm⟩
  · obtain ⟨row, hget, -⟩ := hrow k.message (.inr (.inr ⟨pid, by rw [hp]; rfl⟩))
    cases hst : w.step sha256 (.call pid (.done (.task none))) with
    | none => rfl
    | some w' =>
      obtain ⟨c, handler, hc, hs, -⟩ := (Step.of_step hst).called hp
      rw [hk] at hc
      cases hc
      have hnone := Store.serve_getById hs
      simp [TaskTable.getById, hget] at hnone

end FileExtractor

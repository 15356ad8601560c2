import FileExtractor.Properties.TaskInvariant
import FileExtractor.Worker.Clock

/-!
# The heartbeat of a living handler

A heartbeat is stored for every thirtieth entry, so nothing bounds the time between two of them:
a batch needs three requests even if its archives are empty, and one `Retry-After` of five minutes
is slept without a heartbeat (`heartbeat_outdated` is such a run).

The age of the stored heartbeat is the sum of the sleeps since the claim or the last heartbeat. The
`Timer` computes it from the inputs, and the invariant (`Sync`) relates it to the row, to the copy
of the handler and to its counter. So a run keeps the heartbeat fresh if and only if the timer never
exceeds five minutes (`heartbeat_fresh_iff`).
-/

namespace FileExtractor

open Rel Lts World

namespace Handler

/-- The copy of a handler whose row has the heartbeat `beat`, and the timer. Nothing is left to say
of a handler that ends its run or cleans up: it asks the API no more. -/
def InTime (beat now : Time) (t : Timer) : Handler → Prop
  | getTask => t.entries = 0 ∧ now - beat = t.slept
  | names f | storeReceived f | download f | extract f _ | checkExists f _ _ | upload f _ _ =>
    f.pulse = (some beat, t.entries) ∧ now - beat = t.slept
  | record f _ _ _ | mark f | storeProcessed f =>
    f.pulse = (some beat, t.entries) ∧ now - beat = t.slept
  | storeHeartbeat f _ _ =>
    f.task.lastHeartbeat = some now ∧ f.heartbeatCounter + 1 = t.entries ∧ t.slept = 0
  | _ => True

/-- The await of a heartbeat's write. -/
def beats : Handler → Bool
  | storeHeartbeat _ _ _ => true
  | _ => false

variable {sha256 : Bytes → Digest} {beat beat' now : Time} {t : Timer} {h h' : Handler}
  {a : Except Exn Answer}

theorem inTime_closing (hc : h.isClosing = true) : h.InTime beat now t := by
  cases h <;> trivial

theorem InTime.age (hi : h.InTime beat now t) (ha : h.atApi = true) : now - beat = t.slept := by
  cases h with
  | names f => exact hi.2
  | download f => exact hi.2
  | mark f => exact hi.2
  | _ => cases ha

/-- The sleeps of the client count. -/
theorem InTime.slept (hi : h.InTime beat now t) (ha : h.atApi = true) (d : ℚ)
    (client : CatalogClient) :
    h.InTime beat (now + d) { t with client := client, slept := t.slept + d } := by
  have hage : now + d - beat = t.slept + d := by rw [← hi.age ha, add_sub_right_comm]
  cases h with
  | names f => exact ⟨hi.1, hage⟩
  | download f => exact ⟨hi.1, hage⟩
  | mark f => exact ⟨hi.1, hage⟩
  | _ => cases ha

/-- The next entry of an archive. -/
theorem InTime.entry (hn : Next sha256 now h a h') (hy : h.yields = true)
    (hi : h.InTime beat now t) : h'.InTime beat now (t.step .entry) := by
  cases hn with
  | closed hc => exact inTime_closing hc
  | cleaning f e key file todo hk ht hm => trivial
  | batched f f' hf hh ha hp => rcases hh with rfl | rfl | rfl <;> cases hy
  | yielded f f' extracted rest hs hc hp =>
    have hcount : f.heartbeatCounter = t.entries := congrArg Prod.snd hi.1
    rw [hcount] at hc hp
    refine ⟨congrArg Prod.fst hp, congrArg (· + 1) (congrArg Prod.snd hp), ?_⟩
    show (if t.entries % heartbeatInterval = 0 then 0 else t.slept) = 0
    rw [if_pos hc]
  | counted f f' extracted rest hs hc hp =>
    have hbeat : f.task.lastHeartbeat = some beat := congrArg Prod.fst hi.1
    have hcount : f.heartbeatCounter = t.entries := congrArg Prod.snd hi.1
    rw [hcount] at hc
    refine ⟨by rw [hp, hbeat, hcount]; rfl, ?_⟩
    show now - beat = if t.entries % heartbeatInterval = 0 then 0 else t.slept
    rw [if_neg hc]
    exact hi.2
  | _ => cases hy

/-- Any other answer. `beat'` is the heartbeat that is stored after the call. -/
theorem InTime.next (hn : Next sha256 now h a h') (hi : h.InTime beat now t)
    (hy : h.yields = true → a ≠ .ok .next)
    (hread : ∀ task, a = .ok (.task (some task)) → task.lastHeartbeat = some beat)
    (hkept : h.beats = false → beat' = beat)
    (hbeat : h.beats = true → a = .ok .done → beat' = now) : h'.InTime beat' now t := by
  cases hn with
  | closed hc => exact inTime_closing hc
  | cleaning f e key file todo hk ht hm => trivial
  | deleted f e key file todo a => trivial
  | completed f f' => trivial
  | begun task =>
    obtain rfl := hkept rfl
    refine ⟨?_, hi.2⟩
    rw [hi.1]
    exact congrArg (·, 0) (hread task rfl)
  | batched f f' hf hh ha hp =>
    rcases hh with rfl | rfl | rfl <;> obtain rfl := hkept rfl <;> exact ⟨hp.trans hi.1, hi.2⟩
  | named f f' fileNames hp =>
    obtain rfl := hkept rfl
    exact ⟨hp.trans hi.1, hi.2⟩
  | marked f f' hp =>
    obtain rfl := hkept rfl
    exact ⟨hp.trans hi.1, hi.2⟩
  | yielded => exact absurd rfl (hy rfl)
  | counted => exact absurd rfl (hy rfl)
  | beaten f f' extracted rest hs hp =>
    obtain ⟨hb, hc, hz⟩ := hi
    obtain rfl := hbeat rfl rfl
    exact ⟨by rw [hp, hb, hc], by rw [hz, sub_self]⟩
  | asked | downloaded | drained | skipped | missed | uploaded | recorded =>
    obtain rfl := hkept rfl
    exact hi

/-- The heartbeat that is stored after the call of a handler that still runs. -/
theorem InTime.stored {J : Nat → DownloadTask → Prop} {m : Message} {c : Call} {reply : Reply}
    {store store' : Store} {row : DownloadTaskModel} (hi : h.InTime beat now t) (hj : h.Held J)
    (hid : ∀ task, c = .updateTask task → task.id = m.taskId) (hc : h.call m = some c)
    (hs : store.serve m.taskId c reply = some store')
    (hr : h.resume sha256 now reply.seen = some h') (he : h'.isEnded = false)
    (hrow : store.tasks.get? m.taskId = some row) (hbeat : row.lastHeartbeat = some beat) :
    ∃ row' beat', store'.tasks.get? m.taskId = some row' ∧ row'.lastHeartbeat = some beat' ∧
      (beat' = beat ∨ beat' = now) ∧ (h.beats = false → beat' = beat) ∧
      (h.beats = true → reply.seen = .ok .done → beat' = now) := by
  rcases Store.serve_cases hs with ⟨rfl, e, rfl⟩ | happly
  · exact ⟨row, beat, hrow, hbeat, .inl rfl, fun _ => rfl, fun _ h => by cases h⟩
  by_cases hu : ∃ task, c = .updateTask task
  · obtain ⟨task, rfl⟩ := hu
    cases happly
    -- a write of another status would have ended the handler
    have hrun : task.status = .running := by
      by_contra hs'
      have := hj.ends hc hs' hr
      rw [he] at this; cases this
    refine ⟨row.assign task, ?_⟩
    have hrow' : (store.tasks.update task).get? m.taskId = some (row.assign task) := by
      rw [TaskTable.get?_update, hrow]
      simp [(Table.get?_eq_some.mp hrow).2, hid task rfl]
    cases h <;> simp only [call, Option.some.injEq, Call.updateTask.injEq, reduceCtorEq] at hc <;>
      subst hc
    case storeHeartbeat f extracted rest =>
      exact ⟨now, hrow', hi.1, .inr rfl, (fun h => by cases h), fun _ _ => rfl⟩
    case storeReceived f =>
      exact ⟨beat, hrow', congrArg Prod.fst hi.1, .inl rfl, fun _ => rfl, fun h => by cases h⟩
    case storeProcessed f =>
      exact ⟨beat, hrow', congrArg Prod.fst hi.1, .inl rfl, fun _ => rfl, fun h => by cases h⟩
    all_goals
      have hst := hj.1
      rw [hrun] at hst
      cases hst
  · rcases Store.apply_tasks happly with e | ⟨task, rfl, -⟩
    · refine ⟨row, beat, by rw [e, hrow], hbeat, .inl rfl, fun _ => rfl, fun hb => ?_⟩
      cases h with
      | storeHeartbeat f extracted rest => exact absurd ⟨_, (Option.some.inj hc).symm⟩ hu
      | _ => cases hb
    · exact absurd ⟨task, rfl⟩ hu

/-- Neither the write of a heartbeat nor a request to the API yields an entry. -/
theorem not_yields (h : Handler) (hb : h.beats = true ∨ h.atApi = true) : h.yields = false := by
  cases h <;> simp_all [beats, atApi, yields]

end Handler

/-! ## The handler on the clock and its timer -/

namespace Timed

/-- The handler on the clock, and the timer of its inputs. -/
structure Sync (s : Timed) (t : Timer) : Prop where
  client : s.client = t.client
  row : ∀ k, s.world.procs s.pid = .handling k → k.handler.isEnded = false →
    ∃ m beat, s.world.store.tasks.get? k.message.taskId = some m ∧ m.lastHeartbeat = some beat ∧
      k.handler.InTime beat s.world.now t

variable {sha256 : Bytes → Digest} {retry : AsyncRetryExecutor} {s s' : Timed} {t t' : Timer}
  {i : Input}

/-- The row of the handler after a call: its heartbeat is the one before, or a new one. -/
theorem Sync.row_of_call (hs : s.Sync t) (hid : s.world.CopiesOfMessage) {k k' : Worker}
    {reply : Reply} {world : World} (hp : s.world.procs s.pid = .handling k)
    (hw : s.world.step sha256 (.call s.pid reply) = some world)
    (ht : k.handler.yields = true ∧ reply.seen = .ok .next ∧ t' = t.step .entry ∨
      (k.handler.yields = true → reply.seen ≠ .ok .next) ∧ t' = { t with client := t'.client })
    (hp' : world.procs s.pid = .handling k') (he : k'.handler.isEnded = false) :
    ∃ m beat, s.world.store.tasks.get? k.message.taskId = some m ∧ m.lastHeartbeat = some beat ∧
      ∃ m' beat', world.store.tasks.get? k'.message.taskId = some m' ∧
        m'.lastHeartbeat = some beat' ∧ (beat' = beat ∨ beat' = s.world.now) ∧
        k'.handler.InTime beat' world.now t' := by
  obtain ⟨c, handler, hc, hst, hr, hw'⟩ := (Step.of_step hw).called hp
  rw [hw'] at hp'
  simp only [setProc_self, Proc.handling.injEq] at hp'
  subst hp'
  have hnow : world.now = s.world.now := by rw [hw']; rfl
  obtain ⟨m, beat, hm, hbeat, hi⟩ := hs.row k hp (Handler.isEnded_of_call hc)
  have hcopy := hid s.pid k hp
  obtain ⟨m', beat', hm', hbeat', hor, hkept, hnew⟩ := hi.stored hcopy (fun task hu =>
    (hcopy.stored (.identity fun id _ _ => id = k.message.taskId) (hu ▸ hc)).1) hc hst hr he hm
    hbeat
  refine ⟨m, beat, hm, hbeat, m', beat', hm', hbeat', hor, ?_⟩
  have hn := Handler.resume_next hr
  rw [hnow]
  rcases ht with ⟨hy, -, rfl⟩ | ⟨hy, ht⟩
  · have hb : k.handler.beats = false := by
      cases hb : k.handler.beats with
      | false => rfl
      | true => rw [k.handler.not_yields (.inl hb)] at hy; cases hy
    rw [hkept hb]
    exact hi.entry hn hy
  · rw [ht]
    have hi' : k.handler.InTime beat s.world.now { t with client := t'.client } := by
      cases hk : k.handler <;> rw [hk] at hi <;> exact hi
    refine hi'.next hn hy (fun task htask => ?_) hkept hnew
    obtain ⟨-, row, hrow, rfl⟩ := Handler.reads hc hst hr htask
    rw [hm] at hrow; cases hrow
    exact hbeat

/-- A call keeps the timer in step, and a fresh heartbeat fresh. -/
theorem Sync.call (hs : s.Sync t) (t' : Timer) (hid : s.world.CopiesOfMessage) {k : Worker}
    {reply : Reply} {world : World} (hp : s.world.procs s.pid = .handling k)
    (hw : s.world.step sha256 (.call s.pid reply) = some world)
    (ht : k.handler.yields = true ∧ reply.seen = .ok .next ∧ t' = t.step .entry ∨
      (k.handler.yields = true → reply.seen ≠ .ok .next) ∧ t' = { t with client := t'.client }) :
    Sync { s with world := world, client := t'.client } t' ∧
      (s.Fresh → Fresh { s with world := world, client := t'.client }) := by
  have hrow := fun {k' : Worker} (hp' : world.procs s.pid = .handling k') =>
    hs.row_of_call hid hp hw ht hp'
  obtain ⟨c, handler, hc, -, -, hw'⟩ := (Step.of_step hw).called hp
  refine ⟨⟨rfl, fun k' hp' he => ?_⟩, fun hfresh k' m' beat' hp' he hm' hbeat' => ?_⟩
  · obtain ⟨-, -, -, -, m', beat', hm', hbeat', -, hi⟩ := hrow hp' he
    exact ⟨m', beat', hm', hbeat', hi⟩
  · obtain ⟨m, beat, hm, hbeat, m₁, beat₁, hm₁, hbeat₁, hor, -⟩ := hrow hp' he
    obtain rfl : m₁ = m' := Option.some.inj (hm₁.symm.trans hm')
    obtain rfl : beat₁ = beat' := Option.some.inj (hbeat₁.symm.trans hbeat')
    have hnow : world.now = s.world.now := by rw [hw']; rfl
    show world.now - beat₁ ≤ maxHeartbeatAge
    rw [hnow]
    rcases hor with rfl | rfl
    · exact hfresh k m beat₁ hp (Handler.isEnded_of_call hc) hm hbeat
    · rw [sub_self]; decide +kernel

/-- A sleep of the client makes the heartbeat older. -/
theorem Sync.sleep (hs : s.Sync t) {k : Worker} {d : ℚ} {client : CatalogClient}
    (hp : s.world.procs s.pid = .handling k) (ha : k.handler.atApi = true)
    (hd : t.client.sleep = some (d, client)) :
    let s' := { s with world := { s.world with now := s.world.now + d }, client := client }
    s'.Sync (t.step .sleep) ∧ (s'.Fresh ↔ (t.step .sleep).slept ≤ maxHeartbeatAge) := by
  have ht : t.step .sleep = { t with client := client, slept := t.slept + d } := by
    simp only [Timer.step, hd]
  have he : k.handler.isEnded = false := by
    cases hk : k.handler with
    | ended e => rw [hk] at ha; cases ha
    | _ => rfl
  obtain ⟨m, beat, hm, hbeat, hi⟩ := hs.row k hp he
  have hi' := hi.slept ha d client
  rw [← ht] at hi'
  refine ⟨⟨by rw [ht], fun k' hp' _ => ?_⟩, ?_⟩
  · cases hp.symm.trans hp'
    exact ⟨m, beat, hm, hbeat, hi'⟩
  · rw [← hi'.age ha]
    refine ⟨fun hf => hf k m beat hp he hm hbeat, fun hle k' m' beat' hp' _ hm' hbeat' => ?_⟩
    cases hp.symm.trans hp'
    cases hm.symm.trans hm'
    cases hbeat.symm.trans hbeat'
    exact hle

/-- **One input.** -/
theorem Sync.step (hs : s.Sync t) (hid : s.world.CopiesOfMessage)
    (h : s.step sha256 i = some s') :
    s'.Sync (t.step i) ∧ (s.Fresh → t.slept ≤ maxHeartbeatAge →
      (s'.Fresh ↔ (t.step i).slept ≤ maxHeartbeatAge)) := by
  obtain ⟨k, hp, h⟩ := step_handling h
  cases h with
  | slept d client ha hd =>
    have := hs.sleep hp ha (hs.client ▸ hd)
    exact ⟨this.1, fun _ _ => this.2⟩
  | retried response u effect client ha hr =>
    have ht : t.step (.response response u effect) = { t with client := client } := by
      simp only [Timer.step, ← hs.client, hr]
    rw [ht]
    refine ⟨⟨rfl, fun k hp he => ?_⟩, fun hf hle => iff_of_true hf hle⟩
    obtain ⟨m, beat, hm, hbeat, hi⟩ := hs.row k hp he
    refine ⟨m, beat, hm, hbeat, ?_⟩
    cases hk : k.handler <;> rw [hk] at hi <;> exact hi
  | answered response u effect client result world ha hr hw =>
    have ht : t.step (.response response u effect) = { t with client := client } := by
      simp only [Timer.step, ← hs.client, hr]
    rw [ht]
    have hy : k.handler.yields = true → (replyOf effect result).seen ≠ .ok .next := fun hy => by
      rw [k.handler.not_yields (.inr ha)] at hy; cases hy
    obtain ⟨hs', hf⟩ := hs.call { t with client := client } hid hp hw (.inr ⟨hy, rfl⟩)
    exact ⟨hs', fun hfresh hle => iff_of_true (hf hfresh) hle⟩
  | entered world hy hw =>
    obtain ⟨hs', hf⟩ := hs.call _ hid hp hw (.inl ⟨hy, rfl, rfl⟩)
    rw [← show s.client = (t.step .entry).client from hs.client] at hs' hf
    refine ⟨hs', fun hfresh hle => iff_of_true (hf hfresh) ?_⟩
    show (if t.entries % Handler.heartbeatInterval = 0 then 0 else t.slept) ≤ maxHeartbeatAge
    split
    · decide +kernel
    · exact hle
  | replied reply world hfit hw =>
    have hy : k.handler.yields = true → reply.seen ≠ .ok .next := by
      intro hy hseen
      rw [Reply.of_seen hseen] at hfit
      simp [Input.fits, hy] at hfit
    obtain ⟨hs', hf⟩ := hs.call t hid hp hw (.inr ⟨hy, rfl⟩)
    rw [← hs.client] at hs' hf
    exact ⟨hs', fun hfresh hle => iff_of_true (hf hfresh) hle⟩

/-- A claim stores the first heartbeat. -/
theorem claimed_beat {w₀ w : World} {pid : Pid} {k : Worker}
    (h : Step sha256 w₀ (.claim pid .done) w) (hk : w.procs pid = .handling k) :
    k.handler = .getTask ∧ ∃ m, w.store.tasks.get? k.message.taskId = some m ∧
      m.lastHeartbeat = some w.now := by
  cases h with
  | refused l hl => cases hl
  | claimFails pid m workerId fate hp hn => simp at hk
  | claimed pid msg workerId fate row hp hf hrow hs =>
    simp only [setProc_self, if_true, Proc.handling.injEq] at hk
    subst hk
    refine ⟨rfl, row.claimed workerId w₀.now, ?_, rfl⟩
    show (w₀.store.tasks.claim msg.taskId workerId w₀.now).1.get? msg.taskId = _
    rw [TaskTable.get?_claim, hrow]
    simp [TaskTable.claimable, (Table.get?_eq_some.mp hrow).2, hs]

theorem sync_start (h : (timed sha256 retry).init s) : s.Sync (.start retry) ∧ s.Fresh := by
  obtain ⟨w₀, -, hst, hcl⟩ := h
  have hstep := Step.of_step hst
  refine ⟨⟨hcl, fun k hk _ => ?_⟩, fun k m' beat hk _ hm' hbeat => ?_⟩
  · obtain ⟨hget, m, hm, hb⟩ := claimed_beat hstep hk
    refine ⟨m, _, hm, hb, ?_⟩
    rw [hget]
    exact ⟨rfl, sub_self _⟩
  · obtain ⟨-, m, hm, hb⟩ := claimed_beat hstep hk
    cases hm.symm.trans hm'
    cases hb.symm.trans hbeat
    rw [sub_self]; decide +kernel

end Timed

/-- **The heartbeat of a running handler** stays fresh exactly as long as the answers of the API do
not make the client sleep for more than five minutes between the claim and the first heartbeat or
between two heartbeats. -/
theorem heartbeat_fresh_iff (sha256 : Bytes → Digest) (retry : AsyncRetryExecutor) (s₀ s : Timed)
    (is : List Input) (h0 : (Timed.timed sha256 retry).init s₀)
    (hrun : (Timed.timed sha256 retry).run s₀ is = some s) :
    (∀ is₁ s₁, is₁ <+: is → (Timed.timed sha256 retry).run s₀ is₁ = some s₁ → s₁.Fresh) ↔
      ∀ is₁, is₁ <+: is → ((Timer.start retry).run is₁).slept ≤ maxHeartbeatAge := by
  obtain ⟨hsync, hfresh⟩ := Timed.sync_start h0
  have hsim := Timed.timed_simulates sha256 retry
  refine System.monitor_iff (g := Timer.step) (R := Timed.Sync)
    (Q := fun t => t.slept ≤ maxHeartbeatAge) (fun s t i s' hr hs _ hst => ?_) (.init h0) hsync
    hfresh ?_ System.guarded_free hrun
  · exact hs.step (hsim.invariant (copies_of_message sha256) s hr) hst
  · show (0 : ℚ) ≤ 300
    decide +kernel

/-! ## Runs of one worker -/

/-- The task `t` is started and its message delivered to process 1. -/
def started : List Label := [.start 0 "t" none .done, .send 0, .deliver 1 ⟨"t", none⟩ "a"]

/-- The row of `t` after its claim. -/
def claimedRow : DownloadTaskModel := (DownloadTask.new "t" "").toModel.claimed "a" 0

/-- The API has no names: one request, and the task is done. -/
def nothingToDo : List Input :=
  [.reply (.done (.task (some claimedRow.toDomain))), .sleep, .response (.ok (.names [])) 0 false,
    .reply (.done .done)]

theorem nothing_to_do_fresh : ∃ s₀ s,
    (Timed.timed (fun _ => 0) CatalogClient.defaultRetry).init s₀ ∧
    (Timed.timed (fun _ => 0) CatalogClient.defaultRetry).run s₀ nothingToDo = some s ∧
    ((∀ is₁ s₁, is₁ <+: nothingToDo →
        (Timed.timed (fun _ => 0) CatalogClient.defaultRetry).run s₀ is₁ = some s₁ → s₁.Fresh) ↔
      ∀ is₁, is₁ <+: nothingToDo →
        ((Timer.start CatalogClient.defaultRetry).run is₁).slept ≤ maxHeartbeatAge) := by
  obtain ⟨s₀, s, h0, hrun, -⟩ := Timed.of_check (fun _ => 0) CatalogClient.defaultRetry 1 started
    nothingToDo (fun _ => true) (by decide +kernel)
  exact ⟨s₀, s, h0, hrun, heartbeat_fresh_iff _ _ s₀ s nothingToDo h0 hrun⟩

/-- The first request is answered with 429 and `Retry-After: 300`. -/
def rateLimited : List Input :=
  [.reply (.done (.task (some claimedRow.toDomain))), .sleep, .response (.rateLimited 300) 0 false,
    .sleep]

/-- The watchdog would take the task of the running handler. -/
def Timed.stuckCheck (s : Timed) : Bool :=
  match s.world.procs s.pid with
  | .handling k => !k.handler.isEnded && (s.world.store.tasks.get? k.message.taskId).any
    fun m => m.isStuck (s.world.now - maxHeartbeatAge)
  | _ => false

theorem heartbeat_outdated : ¬ (Timed.timed (fun _ => 0) CatalogClient.defaultRetry).Invariant
    System.free Timed.Fresh := by
  intro hinv
  obtain ⟨s₀, s, h0, hrun, hcheck⟩ := Timed.of_check (fun _ => 0) CatalogClient.defaultRetry 1
    started rateLimited Timed.stuckCheck (by decide +kernel)
  have hfresh := hinv s (System.reach_of_run h0 hrun)
  unfold Timed.stuckCheck at hcheck
  split at hcheck
  · next k hp =>
    rw [Bool.and_eq_true, Bool.not_eq_true', Option.any_eq_true] at hcheck
    obtain ⟨he, m, hm, hstuck⟩ := hcheck
    rw [hfresh.not_stuck hp he hm] at hstuck
    cases hstuck
  · cases hcheck

end FileExtractor

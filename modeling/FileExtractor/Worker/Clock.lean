import FileExtractor.Infrastructure.CatalogClient
import FileExtractor.Worker.Effects

/-!
# A run of the handler on a clock

One handler with the client of its API calls, from its claim on. The clock advances by the sleeps
of the client only: while the handler awaits a call of the API, the client sleeps and is answered
until the call is over, and every other call is answered at once. Each step is no step or one step
of the system (`timed_simulates`).

`Input` is what the handler does not decide: the responses of the API, the entries of the archives
and the replies of the other collaborators. `Timer` counts the sleeps from the inputs alone.
-/

namespace FileExtractor

open Lts World

/-- The awaits of a request to the API. -/
def Handler.atApi : Handler → Bool
  | names _ | download _ | mark _ => true
  | _ => false

/-- The archive has a next entry. -/
def Handler.yields : Handler → Bool
  | extract _ (_ :: _) => true
  | _ => false

inductive Input where
  | sleep
  | response (response : Response) (u : ℚ) (effect : Bool)
  | entry
  | reply (reply : Reply)

/-- The input is one for this await. -/
def Input.fits (h : Handler) : Input → Bool
  | sleep => h.atApi
  | response (.rateLimited _) u _ => h.atApi && isRandom u
  | response _ _ _ => h.atApi
  | entry => h.yields
  | reply (.done _) => !h.atApi && !h.yields
  | reply _ => !h.atApi

/-- The reply of a call of the API; a call that raises may have had its effect. -/
def replyOf (effect : Bool) : Except Exn Answer → Reply
  | .ok answer => .done answer
  | .error e => if effect then .lost e else .refused e

/-- The handler of the process `pid` and its client. -/
structure Timed where
  world : World
  pid : Pid
  client : CatalogClient

namespace Timed

/-- The handler is answered. -/
def call (sha256 : Bytes → Digest) (s : Timed) (reply : Reply) : Option Timed :=
  (s.world.step sha256 (.call s.pid reply)).map fun world => { s with world := world }

def respond (sha256 : Bytes → Digest) (s : Timed) (effect : Bool) :
    CatalogClient × Option (Except Exn Answer) → Option Timed
  | (client, none) => some { s with client := client }
  | (client, some result) => { s with client := client }.call sha256 (replyOf effect result)

def step (sha256 : Bytes → Digest) (s : Timed) (i : Input) : Option Timed :=
  match s.world.procs s.pid with
  | .handling k =>
    if i.fits k.handler then
      match i with
      | .sleep => s.client.sleep.bind fun (d, client) =>
        (s.world.step sha256 (.tick d)).map fun world => { s with world := world, client := client }
      | .response response u effect => (s.client.respond response u).bind (s.respond sha256 effect)
      | .entry => s.call sha256 (.done .next)
      | .reply reply => s.call sha256 reply
    else none
  | _ => none

/-- The runs of a handler from its claim, in any state that the system reaches. -/
def timed (sha256 : Bytes → Digest) (retry : AsyncRetryExecutor) : System Timed Input where
  init s := ∃ w₀, (system sha256).Reach System.free w₀ ∧
    w₀.step sha256 (.claim s.pid .done) = some s.world ∧ s.client = .new retry
  step := step sha256

/-- The stored `last_heartbeat` of the running handler is not older than five minutes. -/
def Fresh (s : Timed) : Prop := ∀ k m h, s.world.procs s.pid = .handling k →
  k.handler.isEnded = false → s.world.store.tasks.get? k.message.taskId = some m →
  m.lastHeartbeat = some h → s.world.now - h ≤ maxHeartbeatAge

/-- `reclaim_stuck` does not take the task of a running handler with a fresh heartbeat. -/
theorem Fresh.not_stuck {s : Timed} (hf : s.Fresh) {k : Worker} {m : DownloadTaskModel}
    (hp : s.world.procs s.pid = .handling k) (he : k.handler.isEnded = false)
    (hm : s.world.store.tasks.get? k.message.taskId = some m) :
    m.isStuck (s.world.now - maxHeartbeatAge) = false := by
  cases hb : m.lastHeartbeat with
  | none => simp [DownloadTaskModel.isStuck, hb]
  | some h =>
    have hle : s.world.now - maxHeartbeatAge ≤ h := sub_le_comm.mp (hf k m h hp he hm hb)
    simp [DownloadTaskModel.isStuck, hb, hle]

end Timed

/-! ## The sleeps of a sequence of inputs -/

/-- The client, the number of the entries, and the sleeps since the claim or the last heartbeat. -/
structure Timer where
  client : CatalogClient
  entries : Nat
  slept : ℚ

namespace Timer

def start (retry : AsyncRetryExecutor) : Timer := ⟨.new retry, 0, 0⟩

/-- A heartbeat is stored for the first entry and for every thirtieth after it. -/
def step (t : Timer) : Input → Timer
  | .sleep =>
    match t.client.sleep with
    | some (d, client) => { t with client := client, slept := t.slept + d }
    | none => t
  | .response response u _ =>
    match t.client.respond response u with
    | some (client, _) => { t with client := client }
    | none => t
  | .entry => { t with
      entries := t.entries + 1
      slept := if t.entries % Handler.heartbeatInterval = 0 then 0 else t.slept }
  | .reply _ => t

def run (t : Timer) (is : List Input) : Timer := is.foldl step t

end Timer

/-! ## The steps -/

namespace Timed

variable {sha256 : Bytes → Digest} {s s' : Timed} {i : Input}

/-- A step of the clock and the client, of the client only, or a call of the handler. -/
inductive TimedStep (sha256 : Bytes → Digest) (s : Timed) (k : Worker) : Input → Timed → Prop where
  | slept (d : ℚ) (client : CatalogClient) (ha : k.handler.atApi = true)
      (hd : s.client.sleep = some (d, client)) :
      TimedStep sha256 s k .sleep
        { s with world := { s.world with now := s.world.now + d }, client := client }
  | retried (response : Response) (u : ℚ) (effect : Bool) (client : CatalogClient)
      (ha : k.handler.atApi = true) (hr : s.client.respond response u = some (client, none)) :
      TimedStep sha256 s k (.response response u effect) { s with client := client }
  | answered (response : Response) (u : ℚ) (effect : Bool) (client : CatalogClient)
      (result : Except Exn Answer) (world : World) (ha : k.handler.atApi = true)
      (hr : s.client.respond response u = some (client, some result))
      (hw : s.world.step sha256 (.call s.pid (replyOf effect result)) = some world) :
      TimedStep sha256 s k (.response response u effect) { s with client := client, world := world }
  | entered (world : World) (hy : k.handler.yields = true)
      (hw : s.world.step sha256 (.call s.pid (.done .next)) = some world) :
      TimedStep sha256 s k .entry { s with world := world }
  | replied (reply : Reply) (world : World) (hf : (Input.reply reply).fits k.handler = true)
      (hw : s.world.step sha256 (.call s.pid reply) = some world) :
      TimedStep sha256 s k (.reply reply) { s with world := world }

theorem of_step {k : Worker} (hp : s.world.procs s.pid = .handling k)
    (h : s.step sha256 i = some s') : TimedStep sha256 s k i s' := by
  unfold step at h
  rw [hp] at h
  simp only at h
  split at h
  · next hf =>
    split at h
    · obtain ⟨⟨d, client⟩, hd, h⟩ := Option.bind_eq_some_iff.mp h
      obtain ⟨world, hw, rfl⟩ := Option.map_eq_some_iff.mp h
      have hnn : 0 ≤ d := CatalogClient.sleep_nonneg hd
      simp only [World.step, if_pos hnn, Option.some.injEq] at hw
      subst hw
      exact .slept d client hf hd
    · next response u effect =>
      have ha : k.handler.atApi = true := by
        unfold Input.fits at hf
        split at hf <;> simp_all
      obtain ⟨⟨client, result⟩, hr, h⟩ := Option.bind_eq_some_iff.mp h
      cases result with
      | none => cases h; exact .retried response u effect client ha hr
      | some result =>
        obtain ⟨world, hw, rfl⟩ := Option.map_eq_some_iff.mp h
        exact .answered response u effect client result world ha hr hw
    · obtain ⟨world, hw, rfl⟩ := Option.map_eq_some_iff.mp h
      exact .entered world hf hw
    · obtain ⟨world, hw, rfl⟩ := Option.map_eq_some_iff.mp h
      exact .replied _ world hf hw
  · cases h

theorem step_handling (h : s.step sha256 i = some s') :
    ∃ k, s.world.procs s.pid = .handling k ∧ TimedStep sha256 s k i s' := by
  cases hp : s.world.procs s.pid with
  | handling k => exact ⟨k, rfl, of_step hp h⟩
  | _ => simp [step, hp] at h

/-- **The clocked handler is a part of the system.** -/
theorem timed_simulates (sha256 : Bytes → Digest) (retry : AsyncRetryExecutor) :
    Simulates (timed sha256 retry) System.free (system sha256) Timed.world where
  init := by
    rintro s ⟨w₀, hr, hst, -⟩
    exact .step (l := .claim s.pid .done) hr trivial hst
  step := by
    intro s i s' _ _ hst
    obtain ⟨k, hp, h⟩ := step_handling hst
    cases h with
    | slept d client ha hd =>
      refine .inr ⟨.tick d, ?_⟩
      show s.world.step sha256 (.tick d) = _
      simp only [World.step, if_pos (CatalogClient.sleep_nonneg hd)]
    | retried response u effect client ha hr => exact .inl rfl
    | answered response u effect client result world ha hr hw =>
      exact .inr ⟨.call s.pid (replyOf effect result), hw⟩
    | entered world hy hw => exact .inr ⟨.call s.pid (.done .next), hw⟩
    | replied reply world hf hw => exact .inr ⟨.call s.pid reply, hw⟩

/-- A concrete run: the labels before the claim, and then the inputs. -/
def runFrom (sha256 : Bytes → Digest) (retry : AsyncRetryExecutor) (pid : Pid) (ls : List Label)
    (is : List Input) : Option Timed := do
  let w₀ ← (system sha256).run (.fresh 0 fun _ => none) ls
  let w ← w₀.step sha256 (.claim pid .done)
  (timed sha256 retry).run ⟨w, pid, .new retry⟩ is

/-- A concrete run whose last state passes a check. -/
theorem of_check (sha256 : Bytes → Digest) (retry : AsyncRetryExecutor) (pid : Pid)
    (ls : List Label) (is : List Input) (p : Timed → Bool)
    (h : (runFrom sha256 retry pid ls is).any p = true) :
    ∃ s₀ s, (timed sha256 retry).init s₀ ∧ (timed sha256 retry).run s₀ is = some s ∧
      p s = true := by
  obtain ⟨s, hs, hp⟩ := (Option.any_eq_true ..).mp h
  obtain ⟨w₀, hw₀, hs⟩ := Option.bind_eq_some_iff.mp hs
  obtain ⟨w, hw, hs⟩ := Option.bind_eq_some_iff.mp hs
  exact ⟨_, s, ⟨w₀, System.reach_of_run ⟨0, _, rfl⟩ hw₀, hw, rfl⟩, hs, hp⟩

end Timed

end FileExtractor

import FileExtractor.Properties.Heartbeat
import Mathlib.Tactic.Linarith
import Mathlib.Tactic.Ring

/-!
# The pace of the requests

A handler is as slow as its client sleeps. The `Meter` counts the sleeps, the requests and the
finished calls of a run from its inputs (`Meter.shows`), and two potentials bound them. Before every
request, also a repeated one, there is a sleep of the limiter, which is never shorter than
`min_delay` (`Paced`). And what a call may still sleep is bounded by the retries that it has left
(`CatalogClient.budget`): it never grows within a call.
-/

namespace FileExtractor

open Lts World

/-! ## The limiter -/

/-- The delay is between the constants of the constructor. -/
structure AdaptiveRateLimiter.Bounded (r : AdaptiveRateLimiter) : Prop where
  minDelay : r.minDelay = 6 / 10
  maxDelay : r.maxDelay = 10
  lower : 6 / 10 ≤ r.delay
  upper : r.delay ≤ 10

namespace AdaptiveRateLimiter

variable {r : AdaptiveRateLimiter}

theorem Bounded.new : AdaptiveRateLimiter.new.Bounded := by
  refine ⟨rfl, rfl, ?_, ?_⟩ <;> norm_num [AdaptiveRateLimiter.new]

theorem Bounded.onSuccess (h : r.Bounded) : r.onSuccess.Bounded := by
  obtain ⟨hmin, hmax, hl, hu⟩ := h
  refine ⟨hmin, hmax, ?_, ?_⟩
  · exact hmin ▸ le_max_left _ _
  · refine max_le (by rw [hmin]; norm_num) ?_
    linarith

theorem Bounded.onFailure (h : r.Bounded) : r.onFailure.Bounded := by
  obtain ⟨hmin, hmax, hl, hu⟩ := h
  refine ⟨hmin, hmax, ?_, ?_⟩
  · refine le_min (by rw [hmax]; norm_num) ?_
    linarith
  · exact hmax ▸ min_le_left _ _

theorem Bounded.limit (h : r.Bounded) (response : Response) : (response.limit r).Bounded := by
  cases response with
  | ok => exact h.onSuccess
  | rateLimited | blocked | malformed => exact h.onFailure
  | retryable | raised => exact h

end AdaptiveRateLimiter

/-! ## The answers of the client -/

/-- What a response leaves: the end of the call, or the sleep before the next request. -/
inductive CatalogClient.Responded (c : CatalogClient) (response : Response) (u : ℚ) :
    CatalogClient → Option (Except Exn Answer) → Prop where
  | settled (result : Except Exn Answer) : Responded c response u
      { c with limiter := response.limit c.limiter, attempts := ⟨0, 0⟩, phase := .wait }
      (some result)
  | again (delay : ℚ) (attempts : Attempts)
      (h : c.retry.handle c.attempts u response.outcome = .sleep delay attempts) :
      Responded c response u { c with
        limiter := response.limit c.limiter, attempts := attempts, phase := .backoff delay } none

theorem CatalogClient.respond_cases {c c' : CatalogClient} {response : Response} {u : ℚ}
    {result : Option (Except Exn Answer)} (h : c.respond response u = some (c', result)) :
    c.phase = .request ∧ c.Responded response u c' result := by
  unfold respond at h
  split at h
  · next hp =>
    refine ⟨hp, ?_⟩
    simp only at h
    split at h
    · cases h; exact .settled _
    · next delay attempts hd => cases h; exact .again delay attempts hd
  · cases h

/-! ## The meter -/

/-- The client, its sleeps, its requests, and its calls that are over. -/
structure Meter where
  client : CatalogClient
  slept : ℚ
  requests : Nat
  calls : Nat

namespace Meter

def start (retry : AsyncRetryExecutor) : Meter := ⟨.new retry, 0, 0, 0⟩

def step (m : Meter) : Input → Meter
  | .sleep =>
    match m.client.sleep with
    | some (d, client) => { m with client := client, slept := m.slept + d }
    | none => m
  | .response response u _ =>
    match m.client.respond response u with
    | some (client, result) => { m with
        client := client
        requests := m.requests + 1
        calls := m.calls + if result.isSome then 1 else 0 }
    | none => m
  | .entry | .reply _ => m

def run (m : Meter) (is : List Input) : Meter := is.foldl step m

/-- The meter of a run that began at `t₀`. -/
structure Shows (t₀ : Time) (s : Timed) (m : Meter) : Prop where
  client : s.client = m.client
  slept : s.world.now = t₀ + m.slept

end Meter

variable {sha256 : Bytes → Digest} {retry : AsyncRetryExecutor} {s s₀ s' : Timed} {i : Input}
  {is : List Input} {t₀ : Time} {m : Meter}

/-- The answers to a handler take no time. -/
theorem Timed.now_of_call {world : World} {reply : Reply}
    (h : s.world.step sha256 (.call s.pid reply) = some world) : world.now = s.world.now := by
  cases Step.of_step h with
  | refused l hl => cases hl
  | call pid reply k c store handler hp hc hs hr => rfl

theorem Meter.Shows.step (h : m.Shows t₀ s) (hst : (Timed.timed sha256 retry).step s i = some s') :
    (m.step i).Shows t₀ s' := by
  obtain ⟨hclient, hslept⟩ := h
  obtain ⟨k, hp, ht⟩ := Timed.step_handling hst
  cases ht with
  | slept d client ha hd =>
    rw [hclient] at hd
    refine ⟨by simp [Meter.step, hd], ?_⟩
    show s.world.now + d = _
    rw [hslept, add_assoc]; simp [Meter.step, hd]
  | retried response u effect client ha hr =>
    rw [hclient] at hr
    exact ⟨by simp [Meter.step, hr], by simpa [Meter.step, hr] using hslept⟩
  | answered response u effect client result world ha hr hw =>
    rw [hclient] at hr
    refine ⟨by simp [Meter.step, hr], ?_⟩
    show world.now = _
    rw [Timed.now_of_call hw]
    simpa [Meter.step, hr] using hslept
  | entered world hy hw => exact ⟨hclient, (Timed.now_of_call hw).trans hslept⟩
  | replied reply world hf hw => exact ⟨hclient, (Timed.now_of_call hw).trans hslept⟩

/-- The time of a run is what its meter has counted. -/
theorem Meter.Shows.run (h : m.Shows t₀ s)
    (hrun : (Timed.timed sha256 retry).run s is = some s') : (m.run is).Shows t₀ s' :=
  System.run_foldl (R := fun s m => Meter.Shows t₀ s m) (fun _ _ _ _ h hst => h.step hst) h hrun

/-- A response of the API. -/
def Input.isResponse : Input → Bool
  | .response _ _ _ => true
  | _ => false

/-- Each response of a run is the one of a request. -/
theorem Meter.requests_run (h : m.Shows t₀ s)
    (hrun : (Timed.timed sha256 retry).run s is = some s') :
    (m.run is).requests = m.requests + is.countP Input.isResponse := by
  induction is generalizing s m with
  | nil => rfl
  | cons i is ih =>
    obtain ⟨t, hst, hrun⟩ := System.run_cons_eq_some.mp hrun
    have hone : (m.step i).requests = m.requests + if i.isResponse then 1 else 0 := by
      obtain ⟨k, hp, ht⟩ := Timed.step_handling hst
      cases ht with
      | slept d client ha hd =>
        rw [h.client] at hd
        simp [Meter.step, hd, Input.isResponse]
      | retried response u effect client ha hr =>
        rw [h.client] at hr
        simp [Meter.step, hr, Input.isResponse]
      | answered response u effect client result world ha hr hw =>
        rw [h.client] at hr
        simp [Meter.step, hr, Input.isResponse]
      | entered | replied => rfl
    show ((m.step i).run is).requests = _
    rw [ih (h.step hst) hrun, hone, List.countP_cons, Nat.add_assoc, Nat.add_comm (List.countP ..)]

/-! ## The least time -/

/-- A request has been made after a sleep of `min_delay` at least. -/
structure Meter.Paced (m : Meter) : Prop where
  limiter : m.client.limiter.Bounded
  waiting : m.client.phase ≠ .request → 6 / 10 * (m.requests : ℚ) ≤ m.slept
  requesting : m.client.phase = .request → 6 / 10 * ((m.requests : ℚ) + 1) ≤ m.slept

theorem Meter.Paced.step (h : m.Paced) (i : Input) : (m.step i).Paced := by
  obtain ⟨hl, hw, hr⟩ := h
  cases i with
  | sleep =>
    cases hp : m.client.phase with
    | wait =>
      have hle := hw (by rw [hp]; exact fun e => by cases e)
      simp only [Meter.step, CatalogClient.sleep, hp]
      refine ⟨hl, fun hn => absurd rfl hn, fun _ => ?_⟩
      have := le_max_right 0 m.client.limiter.delay
      have := hl.lower
      simp only
      linarith
    | request => simpa only [Meter.step, CatalogClient.sleep, hp] using ⟨hl, hw, hr⟩
    | backoff d =>
      have hle := hw (by rw [hp]; exact fun e => by cases e)
      simp only [Meter.step, CatalogClient.sleep, hp]
      refine ⟨hl, fun _ => ?_, fun hn => by cases hn⟩
      have := le_max_left 0 d
      simp only
      linarith
  | response response u effect =>
    cases hres : m.client.respond response u with
    | none => simpa only [Meter.step, hres] using ⟨hl, hw, hr⟩
    | some r =>
      obtain ⟨client, result⟩ := r
      obtain ⟨hp, hc⟩ := CatalogClient.respond_cases hres
      have hle := hr hp
      simp only [Meter.step, hres]
      cases hc with
      | settled result =>
        refine ⟨hl.limit response, fun _ => ?_, fun hn => by cases hn⟩
        push_cast; exact hle
      | again delay attempts h =>
        refine ⟨hl.limit response, fun _ => ?_, fun hn => by cases hn⟩
        push_cast; exact hle
  | entry => exact ⟨hl, hw, hr⟩
  | reply reply => exact ⟨hl, hw, hr⟩

theorem Meter.paced (retry : AsyncRetryExecutor) (is : List Input) :
    ((Meter.start retry).run is).Paced := by
  suffices h : ∀ m : Meter, m.Paced → (m.run is).Paced by
    refine h _ ⟨.new, fun _ => ?_, fun hn => by cases hn⟩
    simp [start]
  induction is with
  | nil => exact fun m h => h
  | cons i is ih => exact fun m h => ih _ (h.step i)

/-! ## The most time -/

namespace CatalogClient

/-- The longest sleep after a 429 with a `Retry-After` of at most `R` seconds. -/
def longest (R : Int) : ℚ := R * (11 / 10) + maxJitter R

/-- The longest time that the client may sleep until its call is over: for each retry that is left
its back-off and a delay of the limiter. -/
def budget (M L R : Nat) (c : CatalogClient) : ℚ :=
  (match c.phase with
    | .wait => 10
    | .request => 0
    | .backoff delay => max 0 delay + 10) +
  (((M : ℚ) - c.attempts.attempt) * 10 + (2 ^ (M + 1) - 2 ^ (c.attempts.attempt + 1))) +
  ((L : ℚ) - c.attempts.rateAttempt) * (longest R + 10)

/-- The retries are within their limits. -/
structure Limited (M L : Nat) (c : CatalogClient) : Prop where
  retry : c.retry = ⟨M, L⟩
  limiter : c.limiter.Bounded
  attempt : c.attempts.attempt ≤ M
  rateAttempt : c.attempts.rateAttempt ≤ L

variable {M L R : Nat} {c c' : CatalogClient} {response : Response} {u d : ℚ}
  {result : Option (Except Exn Answer)}

theorem longest_nonneg : 0 ≤ longest R := by
  have h : (0 : ℚ) ≤ (R : Int) := by positivity
  refine add_nonneg (by positivity) (le_min (by positivity) (by norm_num))

/-- A sleep after a 429 is no longer than the one after the largest `Retry-After`. -/
theorem calculateRetryDelay_le {retryAfter : Int} (hR : retryAfter ≤ R)
    (hu : isRandom u = true) (hd : calculateRetryDelay retryAfter u = .ok d) :
    max 0 d ≤ longest R := by
  have hd : retryAfter * (11 / 10) + maxJitter retryAfter * u = d := by
    unfold calculateRetryDelay toFloat at hd
    split at hd <;> cases hd
    rfl
  refine max_le longest_nonneg ?_
  have hcast : (retryAfter : ℚ) ≤ (R : Int) := by exact_mod_cast hR
  have hjitter : max 0 (maxJitter retryAfter) ≤ maxJitter (R : Int) := by
    refine max_le (le_min (by positivity) (by norm_num)) (min_le_min_right _ ?_)
    linarith
  have := (isRandom_mul hu (maxJitter retryAfter)).2.trans hjitter
  simp only [longest]
  linarith

/-- The budget of a whole call. -/
def callBudget (M L R : Nat) : ℚ :=
  10 + ((M : ℚ) * 10 + (2 ^ (M + 1) - 2)) + (L : ℚ) * (longest R + 10)

theorem Limited.budget_nonneg (h : c.Limited M L) : 0 ≤ c.budget M L R := by
  have hM : (0 : ℚ) ≤ (M : ℚ) - c.attempts.attempt := by
    have : (c.attempts.attempt : ℚ) ≤ M := by exact_mod_cast h.attempt
    linarith
  have hL : (0 : ℚ) ≤ (L : ℚ) - c.attempts.rateAttempt := by
    have : (c.attempts.rateAttempt : ℚ) ≤ L := by exact_mod_cast h.rateAttempt
    linarith
  have hpow : (2 : ℚ) ^ (c.attempts.attempt + 1) ≤ 2 ^ (M + 1) :=
    pow_le_pow_right₀ (by norm_num) (Nat.succ_le_succ h.attempt)
  have hD : 0 ≤ longest R + 10 := add_nonneg longest_nonneg (by norm_num)
  have hphase : (0 : ℚ) ≤ match c.phase with
      | .wait => 10
      | .request => 0
      | .backoff delay => max 0 delay + 10 := by
    split <;> positivity
  have := mul_nonneg hM (by norm_num : (0 : ℚ) ≤ 10)
  have := mul_nonneg hL hD
  unfold budget
  linarith

/-- A sleep is paid from the budget. -/
theorem Limited.sleep (h : c.Limited M L) (hs : c.sleep = some (d, c')) :
    c'.Limited M L ∧ d + c'.budget M L R ≤ c.budget M L R := by
  obtain ⟨hretry, hlim, ha, hr⟩ := h
  unfold CatalogClient.sleep at hs
  split at hs
  · next hp =>
    cases hs
    refine ⟨⟨hretry, hlim, ha, hr⟩, ?_⟩
    have : max 0 c.limiter.delay ≤ 10 := max_le (by norm_num) hlim.upper
    simp only [budget, hp]
    linarith
  · cases hs
  · next delay hp =>
    cases hs
    refine ⟨⟨hretry, hlim, ha, hr⟩, ?_⟩
    simp only [budget, hp]
    linarith

/-- A failed request leaves the rest of the budget. -/
theorem Limited.again (h : c.Limited M L) (hp : c.phase = .request) {delay : ℚ}
    {attempts : Attempts}
    (hd : c.retry.handle c.attempts u response.outcome = .sleep delay attempts)
    (hR : ∀ retryAfter, response = .rateLimited retryAfter →
      retryAfter ≤ R ∧ isRandom u = true)
    (hc : c' = { c with
      limiter := response.limit c.limiter, attempts := attempts, phase := .backoff delay }) :
    c'.Limited M L ∧ c'.budget M L R ≤ c.budget M L R := by
  subst hc
  obtain ⟨hretry, hlim, ha, hr⟩ := h
  cases response with
  | retryable e =>
    simp only [Response.outcome, AsyncRetryExecutor.handle, hretry] at hd
    split at hd
    · cases hd
    · next hle =>
      obtain ⟨hdelay, rfl⟩ := Decision.sleepFor_eq_sleep hd
      obtain rfl : (2 : ℚ) ^ (c.attempts.attempt + 1) = delay := by
        unfold toFloat at hdelay
        split at hdelay <;> cases hdelay
        push_cast; rfl
      refine ⟨⟨hretry, hlim.limit (.retryable e), by simp only; omega, hr⟩, ?_⟩
      have : max (0 : ℚ) (2 ^ (c.attempts.attempt + 1)) = 2 ^ (c.attempts.attempt + 1) :=
        max_eq_right (by positivity)
      simp only [budget, hp, this]
      push_cast
      rw [pow_succ _ (c.attempts.attempt + 1)]
      linarith
  | rateLimited retryAfter =>
    simp only [Response.outcome, AsyncRetryExecutor.handle, hretry] at hd
    split at hd
    · cases hd
    · next hle =>
      obtain ⟨hdelay, rfl⟩ := Decision.sleepFor_eq_sleep hd
      simp only [AsyncRetryExecutor.retryExhausted, Bool.and_eq_true, decide_eq_true_eq,
        not_and, not_lt] at hle
      have hle := hle (by positivity)
      refine ⟨⟨hretry, hlim.limit (.rateLimited retryAfter), ha, by simp only; omega⟩, ?_⟩
      have := calculateRetryDelay_le (hR retryAfter rfl).1 (hR retryAfter rfl).2 hdelay
      simp only [budget, hp]
      push_cast
      linarith
  | ok answer => cases hd
  | blocked retryAfter => cases hd
  | malformed e => cases hd
  | raised e => cases hd

/-- The end of a call restores the budget. -/
theorem Limited.settled (h : c.Limited M L)
    (hc : c' = { c with
      limiter := response.limit c.limiter, attempts := ⟨0, 0⟩, phase := .wait }) :
    c'.Limited M L ∧ c'.budget M L R = callBudget M L R := by
  subst hc
  refine ⟨⟨h.retry, h.limiter.limit response, Nat.zero_le M, Nat.zero_le L⟩, ?_⟩
  simp [budget, callBudget]

end CatalogClient

/-- A response asks for a delay of at most `R` seconds. -/
def Input.AsksAtMost (R : Nat) : Input → Prop
  | .response (.rateLimited retryAfter) _ _ => retryAfter ≤ R
  | _ => True

/-- The random number of a response is one that `random.uniform` gives. -/
def Input.Uniform : Input → Prop
  | .response (.rateLimited _) u _ => isRandom u = true
  | _ => True

theorem Timed.uniform_of_step (h : (Timed.timed sha256 retry).step s i = some s') : i.Uniform := by
  change s.step sha256 i = some s' at h
  unfold Timed.step at h
  split at h
  · split at h
    · next hf =>
      unfold Input.Uniform
      split
      · exact ((Bool.and_eq_true ..).mp hf).2
      · trivial
    · cases h
  · cases h

/-- The sleeps so far, and those that the call may still need. -/
structure Meter.Timely (M L R : Nat) (m : Meter) : Prop where
  limited : m.client.Limited M L
  slept : m.slept + m.client.budget M L R ≤ (m.calls + 1) * CatalogClient.callBudget M L R

variable {M L R : Nat}

theorem Meter.Timely.step (h : m.Timely M L R) (hR : i.AsksAtMost R) (hu : i.Uniform) :
    (m.step i).Timely M L R := by
  obtain ⟨hl, hle⟩ := h
  cases i with
  | sleep =>
    cases hs : m.client.sleep with
    | none => simpa only [Meter.step, hs] using ⟨hl, hle⟩
    | some r =>
      obtain ⟨d, client⟩ := r
      obtain ⟨hl', hb⟩ := hl.sleep (R := R) hs
      simp only [Meter.step, hs]
      exact ⟨hl', by simp only; linarith⟩
  | response response u effect =>
    cases hres : m.client.respond response u with
    | none => simpa only [Meter.step, hres] using ⟨hl, hle⟩
    | some r =>
      obtain ⟨client, result⟩ := r
      obtain ⟨hp, hc⟩ := CatalogClient.respond_cases hres
      simp only [Meter.step, hres]
      cases hc with
      | settled result =>
        obtain ⟨hl', hb⟩ := @CatalogClient.Limited.settled M L R m.client _ response hl rfl
        refine ⟨hl', ?_⟩
        have := hl.budget_nonneg (R := R)
        simp only [hb, Option.isSome_some, if_true]
        push_cast
        linarith
      | again delay attempts hd =>
        obtain ⟨hl', hb⟩ := hl.again (R := R) hp hd
          (fun retryAfter e => by subst e; exact ⟨hR, hu⟩) rfl
        refine ⟨hl', ?_⟩
        simp only [Option.isSome_none, Bool.false_eq_true, if_false, add_zero]
        linarith
  | entry => exact ⟨hl, hle⟩
  | reply reply => exact ⟨hl, hle⟩

theorem Meter.Timely.run (h : m.Timely M L R) (hR : ∀ i ∈ is, i.AsksAtMost R)
    (hrun : (Timed.timed sha256 retry).run s is = some s') : (m.run is).Timely M L R := by
  induction is generalizing s m with
  | nil => exact h
  | cons i is ih =>
    obtain ⟨t, hst, hrun⟩ := System.run_cons_eq_some.mp hrun
    exact ih (h.step (hR i List.mem_cons_self) (Timed.uniform_of_step hst))
      (fun j hj => hR j (List.mem_cons_of_mem i hj)) hrun

theorem Meter.Timely.start : (Meter.start ⟨M, L⟩).Timely M L R := by
  refine ⟨⟨rfl, .new, Nat.zero_le M, Nat.zero_le L⟩, ?_⟩
  simp [Meter.start, CatalogClient.new, CatalogClient.budget, CatalogClient.callBudget]

theorem Meter.shows_start (h0 : (Timed.timed sha256 retry).init s₀) :
    (Meter.start retry).Shows s₀.world.now s₀ := by
  obtain ⟨w₀, -, -, hclient⟩ := h0
  exact ⟨hclient, (add_zero _).symm⟩

/-- **The requests are paced.** In every run of a handler from its claim, whatever the API answers
and however often the client repeats a request, at least 0.6 seconds pass for each response. -/
theorem requests_paced (sha256 : Bytes → Digest) (retry : AsyncRetryExecutor) (s₀ s : Timed)
    (is : List Input) (h0 : (Timed.timed sha256 retry).init s₀)
    (hrun : (Timed.timed sha256 retry).run s₀ is = some s) :
    6 / 10 * (is.countP Input.isResponse : ℚ) ≤ s.world.now - s₀.world.now := by
  have hp := Meter.paced retry is
  have hshows := Meter.shows_start h0
  have hslept := (hshows.run hrun).slept
  have hcount : ((Meter.start retry).run is).requests = is.countP Input.isResponse := by
    rw [Meter.requests_run hshows hrun]; exact Nat.zero_add _
  rw [← hcount]
  by_cases hreq : ((Meter.start retry).run is).client.phase = .request
  · have := hp.requesting hreq
    linarith
  · have := hp.waiting hreq
    linarith

/-- Two responses take more than a second. -/
theorem nothing_to_do_paced : ∃ s₀ s,
    (Timed.timed (fun _ => 0) CatalogClient.defaultRetry).run s₀ nothingToDo = some s ∧
      6 / 10 * (nothingToDo.countP Input.isResponse : ℚ) ≤ s.world.now - s₀.world.now := by
  obtain ⟨s₀, s, h0, hrun, -⟩ := Timed.of_check (fun _ => 0) CatalogClient.defaultRetry 1 started
    nothingToDo (fun _ => true) (by decide +kernel)
  exact ⟨s₀, s, hrun, requests_paced _ _ s₀ s nothingToDo h0 hrun⟩

/-- **The sleeps of the calls are bounded.** With limits `M` and `L` of the two kinds of retries,
and an API that never asks for more than `R` seconds, the time that a handler has slept, which is
all that its clock counts, is at most the budget of one call for each call that is over and for the
one that is not. -/
theorem calls_sleep_at_most (sha256 : Bytes → Digest) (M L R : Nat) (s₀ s : Timed) (is : List Input)
    (h0 : (Timed.timed sha256 ⟨M, L⟩).init s₀)
    (hrun : (Timed.timed sha256 ⟨M, L⟩).run s₀ is = some s) (hR : ∀ i ∈ is, i.AsksAtMost R) :
    s.world.now - s₀.world.now ≤
      (((Meter.start ⟨M, L⟩).run is).calls + 1) * CatalogClient.callBudget M L R := by
  obtain ⟨hl, hle⟩ := (Meter.Timely.start (M := M) (L := L) (R := R)).run hR hrun
  have hslept := ((Meter.shows_start h0).run hrun).slept
  have := hl.budget_nonneg (R := R)
  linarith

/-- A run with one 429 of five minutes. -/
theorem rate_limited_sleeps : ∃ s₀ s,
    (Timed.timed (fun _ => 0) ⟨5, 50⟩).run s₀ rateLimited = some s ∧
      s.world.now - s₀.world.now ≤ (0 + 1) * CatalogClient.callBudget 5 50 300 := by
  obtain ⟨s₀, s, h0, hrun, -⟩ := Timed.of_check (fun _ => 0) ⟨5, 50⟩ 1 started
    rateLimited (fun _ => true) (by decide +kernel)
  have hR : ∀ i ∈ rateLimited, i.AsksAtMost 300 := fun i hi => by
    simp only [rateLimited, List.mem_cons, List.not_mem_nil, or_false] at hi
    rcases hi with rfl | rfl | rfl | rfl <;> first | trivial | exact le_rfl
  have hcalls : ((Meter.start ⟨(5 : Nat), (50 : Nat)⟩).run rateLimited).calls = 0 := by
    decide +kernel
  have hle := calls_sleep_at_most _ 5 50 300 s₀ s rateLimited h0 hrun hR
  rw [hcalls, Nat.cast_zero] at hle
  exact ⟨s₀, s, hrun, hle⟩

end FileExtractor

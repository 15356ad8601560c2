import FileExtractor.Application.ProcessFiles
import Mathlib.Algebra.Order.Ring.Rat

/-!
# The client of the external API

`AdaptiveRateLimiter`, `AsyncRetryExecutor` and the three requests of `CatalogClient`
(`utils/rate_limiter.py`, `utils/retry.py`, `infrastructure/external_api/catalog_client.py`). The
delays of the code are `float`s; here they are the rational numbers that the constants denote.

The executor decides what follows an outcome of `fn` (`AsyncRetryExecutor.handle`). A client is at
one of the points of `fn` and of the loop around it where time passes or the API answers (`Phase`);
`sleep` and `respond` go from one point to the next.
-/

namespace FileExtractor

/-! ## `AdaptiveRateLimiter` -/

structure AdaptiveRateLimiter where
  delay : ℚ
  minDelay : ℚ
  maxDelay : ℚ

namespace AdaptiveRateLimiter

/-- The constructor with its defaults. -/
def new : AdaptiveRateLimiter where
  delay := 3 / 2
  minDelay := 6 / 10
  maxDelay := 10

def onSuccess (r : AdaptiveRateLimiter) : AdaptiveRateLimiter :=
  { r with delay := max r.minDelay (r.delay * (9 / 10)) }

def onFailure (r : AdaptiveRateLimiter) : AdaptiveRateLimiter :=
  { r with delay := min r.maxDelay (r.delay * (5 / 2)) }

end AdaptiveRateLimiter

/-! ## `_build_headers` -/

/-- `_build_headers`, with `settings.candidate_id`: an empty id is as good as none. -/
def buildHeaders (setting candidateId : Option String) : List (String × String) :=
  let cid := if candidateId.getD "" = "" then setting.getD "" else candidateId.getD ""
  if cid = "" then [] else [("X-Candidate-Id", cid)]

/-! ## `AsyncRetryExecutor` -/

/-- What a call of `fn` ends with. `retryable` is a `TimeoutError`, an `httpx.HTTPError` or an
`ExternalAPIServerError`, and `raised` any exception that the executor does not name. -/
inductive Outcome (α : Type) where
  | returned (a : α)
  | rateLimited (retryAfter : Int)
  | retryable (e : Exn)
  | raised (e : Exn)

structure AsyncRetryExecutor where
  maxRetries : Int
  rateLimitRetries : Int

/-- `attempt` and `rate_attempt`. -/
structure Attempts where
  attempt : Nat
  rateAttempt : Nat

/-- The end of `execute`, or the sleep before the next call of `fn`. -/
inductive Decision (α : Type) where
  | stop (result : Except Exn α)
  | sleep (delay : ℚ) (attempts : Attempts)

/-- The sleep of this time, or the exception that is raised instead. -/
def Decision.sleepFor {α : Type} (attempts : Attempts) : Except Exn ℚ → Decision α
  | .ok delay => .sleep delay attempts
  | .error e => .stop (.error e)

theorem Decision.sleepFor_eq_sleep {α : Type} {attempts attempts' : Attempts} {d : ℚ}
    {delay : Except Exn ℚ}
    (h : (sleepFor attempts delay : Decision α) = .sleep d attempts') :
    delay = .ok d ∧ attempts = attempts' := by
  cases delay with
  | ok d' => cases h; exact ⟨rfl, rfl⟩
  | error e => cases h

/-- Integers of this absolute value are rounded to no finite `float`. -/
def floatLimit : Nat := 2 ^ 1024 - 2 ^ 970

/-- The conversion of an `int` to a `float`, which raises `OverflowError`. -/
def toFloat (n : Int) : Except Exn ℚ :=
  if n.natAbs < floatLimit then .ok n else .error (.other "int too large to convert to float")

/-- `random.random()` may give `u`. -/
def isRandom (u : ℚ) : Bool := 0 ≤ u && u ≤ 1

/-- A random part of a number is between zero and the number. -/
theorem isRandom_mul {u : ℚ} (hu : isRandom u = true) (a : ℚ) :
    min 0 a ≤ a * u ∧ a * u ≤ max 0 a := by
  simp only [isRandom, Bool.and_eq_true, decide_eq_true_eq] at hu
  obtain ⟨h0, h1⟩ := hu
  rcases le_total 0 a with ha | ha
  · exact ⟨(min_le_left 0 a).trans (mul_nonneg ha h0),
      (mul_le_of_le_one_right ha h1).trans (le_max_right 0 a)⟩
  · exact ⟨(min_le_right 0 a).trans (le_mul_of_le_one_right ha h1),
      (mul_nonpos_of_nonpos_of_nonneg ha h0).trans (le_max_left 0 a)⟩

/-- The greatest jitter of `_calculate_retry_delay`. -/
def maxJitter (retryAfter : ℚ) : ℚ := min (retryAfter * (5 / 100)) 10

/-- `_calculate_retry_delay`, where `random.uniform(0, jitter)` is `jitter * u`. A product that is
`inf` in the code is the exact number here. -/
def calculateRetryDelay (retryAfter : Int) (u : ℚ) : Except Exn ℚ := do
  let seconds ← toFloat retryAfter
  return seconds * (11 / 10) + maxJitter seconds * u

namespace AsyncRetryExecutor

variable {α : Type}

def retryExhausted (attempt : Nat) (limit : Int) : Bool := 0 ≤ limit && limit < attempt

/-- The body of the loop of `execute`, from the outcome of `fn`. `asyncio.sleep` adds the delay to
the time of its loop, a `float`. -/
def handle (x : AsyncRetryExecutor) (s : Attempts) (u : ℚ) : Outcome α → Decision α
  | .returned a => .stop (.ok a)
  | .rateLimited retryAfter =>
    let rateAttempt := s.rateAttempt + 1
    if retryExhausted rateAttempt x.rateLimitRetries then .stop (.error (.rateLimited retryAfter))
    else .sleepFor { s with rateAttempt := rateAttempt } (calculateRetryDelay retryAfter u)
  | .retryable e =>
    let attempt := s.attempt + 1
    if x.maxRetries < attempt then .stop (.error e)
    else .sleepFor { s with attempt := attempt } (toFloat (2 ^ attempt))
  | .raised e => .stop (.error e)

/-- What `execute` ends with, the number of the calls of `fn`, and the sleeps in order. -/
structure Executed (α : Type) where
  result : Except Exn α
  calls : Nat
  sleeps : List ℚ

/-- The loop of `execute` after `n` calls of `fn`, for at most `fuel` calls more. The call `n` of
`fn` ends with `fn n`, and `random n` is the random number that is drawn after it. -/
def loop (x : AsyncRetryExecutor) (fn : Nat → Outcome α) (random : Nat → ℚ) :
    Nat → Nat → Attempts → List ℚ → Option (Executed α)
  | 0, _, _, _ => none
  | fuel + 1, n, s, sleeps =>
    match x.handle s (random n) (fn n) with
    | .stop result => some ⟨result, n + 1, sleeps⟩
    | .sleep delay s' => x.loop fn random fuel (n + 1) s' (sleeps ++ [delay])

/-- `execute(fn)`; `none` if it has not ended after `fuel` calls of `fn`. -/
def execute (x : AsyncRetryExecutor) (fn : Nat → Outcome α) (random : Nat → ℚ) (fuel : Nat) :
    Option (Executed α) :=
  x.loop fn random fuel 0 ⟨0, 0⟩ []

end AsyncRetryExecutor

/-! ## `CatalogClient` -/

/-- An attempt of a request: its response, or the exception instead of one. `rateLimited` is a 429,
`blocked` a 403 with `Retry-After`, and `malformed` one of the two whose `Retry-After` is no
number. -/
inductive Response where
  | ok (answer : Answer)
  | rateLimited (retryAfter : Int)
  | blocked (retryAfter : Int)
  | malformed (e : Exn)
  | retryable (e : Exn)
  | raised (e : Exn)

def Response.outcome : Response → Outcome Answer
  | ok answer => .returned answer
  | rateLimited retryAfter => .rateLimited retryAfter
  | blocked retryAfter => .raised (.blocked retryAfter)
  | malformed e => .raised e
  | retryable e => .retryable e
  | raised e => .raised e

/-- The calls of the limiter in a request and in `_handle_errors`. -/
def Response.limit (limiter : AdaptiveRateLimiter) : Response → AdaptiveRateLimiter
  | ok _ => limiter.onSuccess
  | rateLimited _ | blocked _ | malformed _ => limiter.onFailure
  | retryable _ | raised _ => limiter

/-- Where a call of the API is: before `limiter.wait()`, in the request, or before the sleep of the
executor. -/
inductive Phase where
  | wait
  | request
  | backoff (delay : ℚ)

structure CatalogClient where
  limiter : AdaptiveRateLimiter
  retry : AsyncRetryExecutor
  attempts : Attempts
  phase : Phase

namespace CatalogClient

/-- The client at the start of a call. -/
def new (retry : AsyncRetryExecutor) : CatalogClient where
  limiter := .new
  retry := retry
  attempts := ⟨0, 0⟩
  phase := .wait

/-- `settings.external_api_max_retries` and `settings.external_api_rate_limit_retries`. -/
def defaultRetry : AsyncRetryExecutor := ⟨5, 50⟩

/-- The sleep at this point, and the client after it. A sleep of a negative time takes none. -/
def sleep (c : CatalogClient) : Option (ℚ × CatalogClient) :=
  match c.phase with
  | .wait => some (max 0 c.limiter.delay, { c with phase := .request })
  | .request => none
  | .backoff delay => some (max 0 delay, { c with phase := .wait })

/-- The API responds: the client after it and, if the call is over, its result. -/
def respond (c : CatalogClient) (response : Response) (u : ℚ) :
    Option (CatalogClient × Option (Except Exn Answer)) :=
  match c.phase with
  | .request =>
    let c := { c with limiter := response.limit c.limiter }
    match c.retry.handle c.attempts u response.outcome with
    | .stop result => some ({ c with attempts := ⟨0, 0⟩, phase := .wait }, some result)
    | .sleep delay attempts => some ({ c with attempts := attempts, phase := .backoff delay }, none)
  | _ => none

theorem sleep_nonneg {c c' : CatalogClient} {d : ℚ} (h : c.sleep = some (d, c')) : 0 ≤ d := by
  unfold sleep at h
  split at h <;> simp only [Option.some.injEq, Prod.mk.injEq, reduceCtorEq] at h
  · exact h.1 ▸ le_max_left ..
  · exact h.1 ▸ le_max_left ..

end CatalogClient

end FileExtractor

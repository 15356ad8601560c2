import FileExtractor.Infrastructure.CatalogClient
import Mathlib.Data.Nat.Find

/-!
# The retry law

The two budgets of `AsyncRetryExecutor`, from the outcomes of `fn` alone: `retries n` and
`rateLimits n` count the two kinds of failure among the first `n` outcomes, `isFinal n` says that
the outcome `n` ends the loop, and `sleepAfter n` is the sleep after one that does not.

`loop` has counted `retries n` and `rateLimits n` when it comes to the outcome `n` (`tally n`), as
long as no outcome before it is final. So it stops at the first final outcome, and with a limit on
the rate limits there is one (`exists_final`). It stops earlier where the sleep after an outcome
has no `float` (`sleepable`): there `OverflowError` is raised, which is no outcome of `fn`.
-/

namespace FileExtractor

namespace Outcome

variable {α : Type}

def isRetryable : Outcome α → Bool
  | .retryable _ => true
  | _ => false

def isRateLimited : Outcome α → Bool
  | .rateLimited _ => true
  | _ => false

/-- The value that is returned, or the exception that is raised. -/
def result : Outcome α → Except Exn α
  | .returned a => .ok a
  | .rateLimited retryAfter => .error (.rateLimited retryAfter)
  | .retryable e => .error e
  | .raised e => .error e

end Outcome

namespace AsyncRetryExecutor

variable {α : Type} (x : AsyncRetryExecutor) (fn : Nat → Outcome α) (random : Nat → ℚ)

/-- The retryable errors among the first `n` outcomes. -/
def retries (n : Nat) : Nat := (List.range n).countP fun i => (fn i).isRetryable

/-- The rate limits among the first `n` outcomes. -/
def rateLimits (n : Nat) : Nat := (List.range n).countP fun i => (fn i).isRateLimited

/-- The outcome `n` ends the loop: a success, another exception, or a failure whose budget the
failures before it have used up. A negative limit of the rate limits is none. -/
def isFinal (n : Nat) : Bool :=
  match fn n with
  | .returned _ | .raised _ => true
  | .retryable _ => max x.maxRetries 0 ≤ retries fn n
  | .rateLimited _ => x.rateLimitRetries = rateLimits fn n

/-- The sleep after the outcome `n`: `2 ^ k` after the retryable error `k`, and after a rate limit
1.1 times its own `retry_after` and a random part of 5 % of it, of 10 s at most. -/
def sleepAfter (n : Nat) : ℚ :=
  match fn n with
  | .retryable _ => 2 ^ (retries fn n + 1)
  | .rateLimited retryAfter =>
    retryAfter * (11 / 10) + min (retryAfter * (5 / 100) : ℚ) 10 * random n
  | _ => 0

/-- The sleep after the outcome `n` is computed from integers that have a `float`. -/
def sleepable (n : Nat) : Bool :=
  match fn n with
  | .retryable _ => retries fn n < 1023
  | .rateLimited retryAfter => retryAfter.natAbs < floatLimit
  | _ => true

/-- The two counts as the loop holds them. -/
def tally (n : Nat) : Attempts := ⟨retries fn n, rateLimits fn n⟩

/-- None of the first `n` outcomes ends the loop. -/
def GoesOn (n : Nat) : Prop := ∀ j < n, x.isFinal fn j = false

variable {x fn random} {n i : Nat}

theorem retries_succ : retries fn (n + 1) = retries fn n + (fn n).isRetryable.toNat := by
  cases h : (fn n).isRetryable <;> simp [retries, List.range_succ, h]

theorem rateLimits_succ : rateLimits fn (n + 1) = rateLimits fn n + (fn n).isRateLimited.toNat := by
  cases h : (fn n).isRateLimited <;> simp [rateLimits, List.range_succ, h]

theorem GoesOn.of_succ (h : x.GoesOn fn (n + 1)) : x.GoesOn fn n ∧ x.isFinal fn n = false :=
  ⟨fun j hj => h j (Nat.lt_succ_of_lt hj), h n (Nat.lt_succ_self n)⟩

/-! ## The budgets -/

/-- The rate limits before an outcome that is reached are within their budget. -/
theorem GoesOn.rateLimits_le (h : x.GoesOn fn n) (hR : 0 ≤ x.rateLimitRetries) :
    (rateLimits fn n : Int) ≤ x.rateLimitRetries := by
  induction n with
  | zero => exact hR
  | succ n ih =>
    obtain ⟨hg, hf⟩ := h.of_succ
    have hle := ih hg
    rw [rateLimits_succ]
    cases hn : fn n with
    | rateLimited retryAfter =>
      simp only [isFinal, hn, decide_eq_false_iff_not] at hf
      simp only [Outcome.isRateLimited, Bool.toNat_true]
      omega
    | _ => simpa [Outcome.isRateLimited, hn] using hle

/-- An outcome that does not end the loop is one of the two failures. -/
theorem GoesOn.counted (h : x.GoesOn fn n) : n = retries fn n + rateLimits fn n := by
  induction n with
  | zero => rfl
  | succ n ih =>
    obtain ⟨hg, hf⟩ := h.of_succ
    have hn := ih hg
    rw [retries_succ, rateLimits_succ]
    cases ho : fn n with
    | returned a => simp [isFinal, ho] at hf
    | raised e => simp [isFinal, ho] at hf
    | retryable e =>
      simp only [Outcome.isRetryable, Outcome.isRateLimited, Bool.toNat_true, Bool.toNat_false]
      omega
    | rateLimited r =>
      simp only [Outcome.isRetryable, Outcome.isRateLimited, Bool.toNat_true, Bool.toNat_false]
      omega

/-- The powers of two that have a `float`. -/
theorem two_pow_lt_floatLimit {k : Nat} : 2 ^ k < floatLimit ↔ k < 1024 := by
  have hlow : 2 ^ 1023 < floatLimit := by decide +kernel
  have hhigh : floatLimit ≤ 2 ^ 1024 := Nat.sub_le ..
  refine ⟨fun h => ?_, fun h => ?_⟩
  · by_contra hk
    have := Nat.pow_le_pow_right (n := 2) (by decide) (Nat.le_of_not_lt hk)
    omega
  · have := Nat.pow_le_pow_right (n := 2) (by decide) (Nat.le_of_lt_succ h)
    omega

/-- Another outcome is counted, and slept after if its sleep has a `float`. -/
theorem handle_goes_on (hg : x.GoesOn fn n) (h : x.isFinal fn n = false) :
    x.handle (tally fn n) (random n) (fn n) =
      if sleepable fn n then .sleep (sleepAfter fn random n) (tally fn (n + 1))
      else .stop (.error (.other "int too large to convert to float")) := by
  have hle := hg.rateLimits_le
  unfold isFinal at h
  simp only [tally, retries_succ, rateLimits_succ, sleepAfter, sleepable]
  cases hn : fn n with
  | returned a => simp [hn] at h
  | raised e => simp [hn] at h
  | retryable e =>
    simp only [hn, decide_eq_false_iff_not] at h
    have : ¬ x.maxRetries < retries fn n + 1 := by omega
    have hf : 2 ^ (retries fn n + 1) < floatLimit ↔ retries fn n < 1023 := by
      rw [two_pow_lt_floatLimit]
      omega
    by_cases hs : retries fn n < 1023
    · simp [handle, toFloat, Int.natAbs_pow, Decision.sleepFor, Outcome.isRetryable,
        Outcome.isRateLimited, this, hf, hs]
    · simp [handle, toFloat, Int.natAbs_pow, Decision.sleepFor, this, hf, hs]
  | rateLimited r =>
    simp only [hn, decide_eq_false_iff_not] at h
    have : retryExhausted (rateLimits fn n + 1) x.rateLimitRetries = false := by
      simp only [retryExhausted, Bool.and_eq_false_iff, decide_eq_false_iff_not]
      omega
    by_cases hs : r.natAbs < floatLimit
    · simp [handle, calculateRetryDelay, toFloat, maxJitter, Decision.sleepFor,
        Outcome.isRetryable, Outcome.isRateLimited, this, hs, bind, Except.bind, pure, Except.pure]
    · simp [handle, calculateRetryDelay, toFloat, Decision.sleepFor, this, hs, bind, Except.bind]

/-- The sleeps before the outcome `n`. -/
def sleepsBefore (fn : Nat → Outcome α) (random : Nat → ℚ) (n : Nat) : List ℚ :=
  (List.range n).map (sleepAfter fn random)

theorem sleepsBefore_succ : sleepsBefore fn random (n + 1) =
    sleepsBefore fn random n ++ [sleepAfter fn random n] := by
  simp [sleepsBefore, List.range_succ]

/-- One turn of the loop, after an outcome that does not end it. -/
theorem loop_succ (hg : x.GoesOn fn (n + 1)) (hs : sleepable fn n = true) (fuel : Nat) :
    x.loop fn random (fuel + 1) n (tally fn n) (sleepsBefore fn random n) =
      x.loop fn random fuel (n + 1) (tally fn (n + 1)) (sleepsBefore fn random (n + 1)) := by
  obtain ⟨hn, hf⟩ := hg.of_succ
  simp only [loop, handle_goes_on hn hf, hs, if_true, sleepsBefore_succ]

/-- The loop from the outcome `n` on, if the first outcome that stops it is `n + k`. -/
theorem loop_stop (random : Nat → ℚ) {k fuel : Nat} {result : Except Exn α}
    (hg : x.GoesOn fn (n + k)) (hs : ∀ j < n + k, sleepable fn j = true)
    (hd : x.handle (tally fn (n + k)) (random (n + k)) (fn (n + k)) = .stop result)
    (hfuel : k < fuel) :
    x.loop fn random fuel n (tally fn n) (sleepsBefore fn random n) =
      some ⟨result, n + k + 1, sleepsBefore fn random (n + k)⟩ := by
  induction k generalizing n fuel with
  | zero =>
    obtain ⟨fuel, rfl⟩ := Nat.exists_eq_succ_of_ne_zero (Nat.ne_of_gt hfuel)
    rw [Nat.add_zero] at hd
    simp only [loop, hd, Nat.add_zero]
  | succ k ih =>
    obtain ⟨fuel, rfl⟩ := Nat.exists_eq_succ_of_ne_zero (Nat.ne_zero_of_lt hfuel)
    have e : n + (k + 1) = n + 1 + k := by omega
    rw [e] at hg hs hd ⊢
    rw [loop_succ (fun j hj => hg j (by omega)) (hs n (by omega))]
    exact ih hg hs hd (Nat.lt_of_succ_lt_succ hfuel)

theorem execute_stop (random : Nat → ℚ) {i fuel : Nat} {result : Except Exn α}
    (hg : x.GoesOn fn i) (hs : ∀ j < i, sleepable fn j = true)
    (hd : x.handle (tally fn i) (random i) (fn i) = .stop result) (hfuel : i < fuel) :
    x.execute fn random fuel = some ⟨result, i + 1, sleepsBefore fn random i⟩ := by
  have h := loop_stop random (n := 0) (by rwa [Nat.zero_add]) (by rwa [Nat.zero_add])
    (by rwa [Nat.zero_add]) hfuel
  rwa [Nat.zero_add] at h

/-- `execute` ends at the first final outcome and only there, with its result; it has called `fn`
once for each outcome up to it and slept once after each outcome before it. If the rate limits are
limited, it ends within the sum of the two budgets. -/
structure ObeysLaw (x : AsyncRetryExecutor) (fn : Nat → Outcome α) (random : Nat → ℚ) : Prop where
  final : ∀ i, x.isFinal fn i = true → (∀ j < i, x.isFinal fn j = false) → ∀ fuel,
    x.execute fn random fuel =
      if i < fuel then
        some ⟨(fn i).result, i + 1, (List.range i).map (sleepAfter fn random)⟩
      else none
  endless : (∀ i, x.isFinal fn i = false) → ∀ fuel, x.execute fn random fuel = none
  bounded : 0 ≤ x.rateLimitRetries → ∃ r, (∃ fuel, x.execute fn random fuel = some r) ∧
    (r.calls : Int) ≤ max x.maxRetries 0 + x.rateLimitRetries + 1

/-- An outcome that is not final, with a sleep that has no `float`, ends the loop. -/
theorem ObeysLaw.sleepable (h : x.ObeysLaw fn random) {n : Nat} (hg : x.GoesOn fn (n + 1)) :
    sleepable fn n = true := by
  induction n using Nat.strong_induction_on with
  | _ n ih =>
    by_contra hs
    obtain ⟨hn, hf⟩ := hg.of_succ
    have hend : ∀ fuel, n < fuel → x.execute fn random fuel =
        some ⟨.error (.other "int too large to convert to float"), n + 1,
          sleepsBefore fn random n⟩ := fun fuel hfuel =>
      execute_stop random hn (fun j hj => ih j hj fun i hi => hg i (by omega))
        (by rw [handle_goes_on hn hf, if_neg hs]) hfuel
    by_cases hex : ∃ i, x.isFinal fn i = true
    · classical
      -- the first final outcome comes after the one that has ended the loop
      have hfirst : ∀ j < Nat.find hex, x.isFinal fn j = false := fun j hj => by
        simpa using Nat.find_min hex hj
      have hlt : n < Nat.find hex := by
        by_contra hle
        have := hg (Nat.find hex) (by omega)
        rw [Nat.find_spec hex] at this; cases this
      have hlaw := h.final _ (Nat.find_spec hex) hfirst (Nat.find hex + 1)
      rw [hend _ (by omega), if_pos (Nat.lt_succ_self _), Option.some.injEq,
        Executed.mk.injEq] at hlaw
      omega
    · have hlaw := h.endless (fun i => by simpa using fun hi => hex ⟨i, hi⟩) (n + 1)
      rw [hend _ (Nat.lt_succ_self n)] at hlaw
      cases hlaw

end AsyncRetryExecutor

end FileExtractor

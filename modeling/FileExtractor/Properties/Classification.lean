import FileExtractor.Infrastructure.HandleErrors

/-!
# Which exception a response raises

`_handle_errors` has one exception for each kind of response, and the exception decides whether the
call is made again, the task is parked, or it fails (`Classified`). It raises another one exactly
when a `Retry-After` is no number for `int`, or the body of a 404 is no JSON object that is read
(`classified_iff`).
-/

namespace FileExtractor

/-! ## The header -/

variable {lib : Libraries} {str : Raised → String} {limiter : AdaptiveRateLimiter}
  {r : HttpResponse}

theorem intOf_some {text : String} {n : Int} (h : PyInt.ofText text = some n) :
    intOf text = .ok n := by
  unfold intOf
  rw [h]
  rfl

theorem intOf_none {text : String} (h : PyInt.ofText text = none) :
    intOf text = .error (.valueError text) := by
  unfold intOf
  rw [h]
  rfl

theorem isNumeric_braces : PyInt.isNumeric '{' = false ∧ PyInt.isNumeric '}' = false := by decide

/-- The character is no brace. -/
def isPlain (c : Char) : Bool := c ≠ '{' && c ≠ '}'

/-- A message with a number in it is formatted. -/
theorem Libraries.FormatsPlain.warning_ofText (hf : lib.FormatsPlain) {before text after : String}
    {n : Int} (hn : PyInt.ofText text = some n)
    (hb : (before.toList ++ after.toList).all isPlain = true) :
    lib.warning (before ++ text ++ after) = .ok () := by
  have hplain : ∀ c, PyInt.isNumeric c = false → (c = '{' ∨ c = '}') →
      c ∉ (before ++ text ++ after).toList := by
    intro c hc hbrace hmem
    simp only [String.toList_append, List.mem_append] at hmem
    have hother : c ∈ before.toList ++ after.toList → False := fun h => by
      have hc := List.all_eq_true.mp hb c h
      rcases hbrace with rfl | rfl <;> cases hc
    rcases hmem with (h | h) | h
    · exact hother (List.mem_append_left _ h)
    · rw [PyInt.isNumeric_of_mem hn h] at hc
      cases hc
    · exact hother (List.mem_append_right _ h)
  unfold Libraries.warning
  rw [hf _ (hplain _ isNumeric_braces.1 (.inl rfl)) (hplain _ isNumeric_braces.2 (.inr rfl))]
  rfl

theorem warning_cases (lib : Libraries) (message : String) :
    lib.warning message = .ok () ∨ ∃ m, lib.warning message = .error (.formatError m) := by
  unfold Libraries.warning
  cases lib.format message with
  | none => exact .inl rfl
  | some m => exact .inr ⟨m, rfl⟩

/-- The exception says that a header could not be read. -/
def Raised.isMalformed : Raised → Bool
  | .valueError _ | .formatError _ => true
  | _ => false

/-- The exception that a branch makes of a header that is a number. -/
theorem raise_ofText (hf : lib.FormatsPlain) {before text after : String} {n : Int}
    (mk : Int → Raised) (hn : PyInt.ofText text = some n)
    (hb : (before.toList ++ after.toList).all isPlain = true) :
    (do
      lib.warning (before ++ text ++ after)
      throw (mk (← intOf text)) : Except Raised Unit) = .error (mk n) := by
  rw [hf.warning_ofText hn hb, intOf_some hn]
  rfl

theorem raise_malformed (lib : Libraries) (message : String) {text : String} (mk : Int → Raised)
    (hn : PyInt.ofText text = none) :
    ∃ e, e.isMalformed = true ∧ (do
      lib.warning message
      throw (mk (← intOf text)) : Except Raised Unit) = .error e := by
  rw [intOf_none hn]
  rcases warning_cases lib message with h | ⟨m, h⟩
  · exact ⟨.valueError text, rfl, by rw [h]; rfl⟩
  · exact ⟨.formatError m, rfl, by rw [h]; rfl⟩

/-! ## One response -/

namespace HttpResponse

/-- The header of a 429 or 403 is a number for `int`. -/
def HeaderReads (r : HttpResponse) : Prop :=
  r.statusCode = 429 ∨ r.statusCode = 403 →
    ∀ text, r.retryAfter = some text → (PyInt.ofText text).isSome = true

/-- The body of a 404 is a JSON object that is read. -/
def BodyReads (r : HttpResponse) : Prop :=
  r.statusCode = 404 → ∃ fields, r.body = .value (.dict fields)

end HttpResponse

theorem handleErrors_429 (hf : lib.FormatsPlain) (h : r.statusCode = 429) {n : Int}
    (hn : PyInt.ofText (r.retryAfter.getD "60") = some n) :
    (handleErrors lib limiter r).2 = .error (.rateLimited n) := by
  unfold handleErrors
  rw [if_pos h]
  exact raise_ofText hf .rateLimited hn rfl

theorem handleErrors_429_malformed (lib : Libraries) (limiter : AdaptiveRateLimiter)
    (h : r.statusCode = 429)
    (hn : PyInt.ofText (r.retryAfter.getD "60") = none) :
    ∃ e, e.isMalformed = true ∧ (handleErrors lib limiter r).2 = .error e := by
  unfold handleErrors
  rw [if_pos h]
  exact raise_malformed lib _ .rateLimited hn

theorem handleErrors_403 (hf : lib.FormatsPlain) (h : r.statusCode = 403) {text : String} {n : Int}
    (ht : r.retryAfter = some text) (hn : PyInt.ofText text = some n) :
    (handleErrors lib limiter r).2 = .error (.blocked n) := by
  unfold handleErrors
  rw [if_neg (by omega), if_pos h, ht]
  exact raise_ofText hf .blocked hn rfl

theorem handleErrors_403_malformed (lib : Libraries) (limiter : AdaptiveRateLimiter)
    (h : r.statusCode = 403) {text : String}
    (ht : r.retryAfter = some text) (hn : PyInt.ofText text = none) :
    ∃ e, e.isMalformed = true ∧ (handleErrors lib limiter r).2 = .error e := by
  unfold handleErrors
  rw [if_neg (by omega), if_pos h, ht]
  exact raise_malformed lib _ .blocked hn

theorem handleErrors_forbidden (hf : lib.FormatsPlain) (h : r.statusCode = 403)
    (ht : r.retryAfter = none) : (handleErrors lib limiter r).2 = .error .forbidden := by
  unfold handleErrors Libraries.warning
  rw [if_neg (by omega), if_pos h, ht, hf _ (by decide) (by decide)]
  rfl

/-- The exception of a 404 is one of five. -/
theorem handleErrors_404 (h : r.statusCode = 404) : (handleErrors lib limiter r).2 =
    match r.body with
    | .value (.dict fields) => .error (.notFound
        (((fields.reverse.find? (·.1 = "detail")).map (·.2)).getD (.str "Resource not found")))
    | .value data => .error (.attributeError data.typeName)
    | .invalid message => .error (.parseError ("Invalid JSON in handle_errors: " ++ message))
    | .tooDeep => .error .recursionError
    | .unread => .error .responseNotRead := by
  unfold handleErrors
  rw [if_neg (by omega), if_neg (by omega), if_pos h]
  cases r.body with
  | unread => rfl
  | invalid message => rfl
  | tooDeep => rfl
  | value data => cases data <;> rfl

theorem handleErrors_server (h : 500 ≤ r.statusCode) : (handleErrors lib limiter r).2 =
    .error (.serverError ("Server error: " ++ toString r.statusCode)) := by
  unfold handleErrors
  rw [if_neg (by omega), if_neg (by omega), if_neg (by omega), if_pos h]
  rfl

theorem handleErrors_otherwise (h429 : r.statusCode ≠ 429) (h403 : r.statusCode ≠ 403)
    (h404 : r.statusCode ≠ 404) (hlt : r.statusCode < 500) :
    (handleErrors lib limiter r).2 = lib.checkStatus r := by
  unfold handleErrors
  rw [if_neg h429, if_neg h403, if_neg h404, if_neg (by omega)]

/-! ## Every response -/

/-- Where the handler's `except ExternalAPIBlockedError` leads to, from a call of the API. -/
def Handler.blockBranch (now : Time) (retryAfter : Int) : Handler → Option Handler
  | .names f => some (handleBlock now f retryAfter)
  | .download f | .mark f => some (failBatch now f (.blocked retryAfter))
  | _ => none

/-- How an attempt ends whose response raises an exception. -/
def raisedOutcome (lib : Libraries) (str : Raised → String) (limiter : AdaptiveRateLimiter)
    (r : HttpResponse) : Option (Outcome Answer) :=
  match (handleErrors lib limiter r).2 with
  | .error e => some (e.response str).outcome
  | .ok () => none

/-- The response raises the exception of its kind. A 429 comes to the rate limits of the executor,
and a 403 with a header to the handler's branch for a block. -/
structure Classified (lib : Libraries) (str : Raised → String) (limiter : AdaptiveRateLimiter)
    (r : HttpResponse) : Prop where
  rateLimited : r.statusCode = 429 → ∃ n, (handleErrors lib limiter r).2 = .error (.rateLimited n)
  blocked : r.statusCode = 403 → r.retryAfter.isSome = true →
    ∃ n, (handleErrors lib limiter r).2 = .error (.blocked n)
  forbidden : r.statusCode = 403 → r.retryAfter = none →
    (handleErrors lib limiter r).2 = .error .forbidden
  notFound : r.statusCode = 404 → ∃ d, (handleErrors lib limiter r).2 = .error (.notFound d)
  server : 500 ≤ r.statusCode → ∃ m, (handleErrors lib limiter r).2 = .error (.serverError m)
  otherwise : r.statusCode ≠ 429 → r.statusCode ≠ 403 → r.statusCode ≠ 404 → r.statusCode < 500 →
    (handleErrors lib limiter r).2 = lib.checkStatus r
  waits : r.statusCode = 429 → ∃ n, raisedOutcome lib str limiter r = some (.rateLimited n)
  parks : r.statusCode = 403 → r.retryAfter.isSome = true →
    ∃ o n, raisedOutcome lib str limiter r = some o ∧
      ∀ (x : AsyncRetryExecutor) s u, ∃ result, x.handle s u o = .stop result ∧
        ∀ sha256 now h h', Handler.blockBranch now n h = some h' →
          h.resume sha256 now result = some h'

theorem Classified.of_reads (hf : lib.FormatsPlain) (hh : r.HeaderReads) (hb : r.BodyReads) :
    Classified lib str limiter r := by
  have h429 : r.statusCode = 429 →
      ∃ n, (handleErrors lib limiter r).2 = .error (.rateLimited n) := by
    intro h
    have hread : (PyInt.ofText (r.retryAfter.getD "60")).isSome = true := by
      cases ht : r.retryAfter with
      | none => decide
      | some text => exact hh (.inl h) text ht
    obtain ⟨n, hn⟩ := Option.isSome_iff_exists.mp hread
    exact ⟨n, handleErrors_429 hf h hn⟩
  have h403 : r.statusCode = 403 → r.retryAfter.isSome = true →
      ∃ n, (handleErrors lib limiter r).2 = .error (.blocked n) := by
    intro h ht
    obtain ⟨text, ht⟩ := Option.isSome_iff_exists.mp ht
    obtain ⟨n, hn⟩ := Option.isSome_iff_exists.mp (hh (.inr h) text ht)
    exact ⟨n, handleErrors_403 hf h ht hn⟩
  refine {
    rateLimited := h429
    blocked := h403
    forbidden := handleErrors_forbidden hf
    notFound := fun h => ?_
    server := fun h => ⟨_, handleErrors_server h⟩
    otherwise := handleErrors_otherwise
    waits := fun h => ?_
    parks := fun h ht => ?_ }
  · obtain ⟨fields, hfields⟩ := hb h
    exact ⟨_, by rw [handleErrors_404 h, hfields]⟩
  · obtain ⟨n, hn⟩ := h429 h
    exact ⟨n, by rw [raisedOutcome, hn]; rfl⟩
  · obtain ⟨n, hn⟩ := h403 h ht
    refine ⟨.raised (.blocked n), n, by rw [raisedOutcome, hn]; rfl, fun x s u => ?_⟩
    refine ⟨.error (.blocked n), rfl, fun sha256 now h h' hbranch => ?_⟩
    cases h <;> first | exact hbranch | cases hbranch

theorem Classified.headerReads (h : Classified lib str limiter r) : r.HeaderReads := by
  intro hs text ht
  by_contra hn
  have hn : PyInt.ofText text = none := by simpa using hn
  rcases hs with h429 | h403
  · obtain ⟨n, hr⟩ := h.rateLimited h429
    obtain ⟨e, he, hr'⟩ := handleErrors_429_malformed lib limiter h429
      (by rw [ht]; exact hn)
    rw [hr] at hr'
    cases hr'
    cases he
  · obtain ⟨n, hr⟩ := h.blocked h403 (by rw [ht]; rfl)
    obtain ⟨e, he, hr'⟩ := handleErrors_403_malformed lib limiter h403 ht hn
    rw [hr] at hr'
    cases hr'
    cases he

theorem Classified.bodyReads (h : Classified lib str limiter r) : r.BodyReads := by
  intro h404
  obtain ⟨d, hr⟩ := h.notFound h404
  rw [handleErrors_404 h404] at hr
  split at hr
  · next fields hfields => exact ⟨fields, hfields⟩
  all_goals cases hr

/-- **The exact condition** under which a response raises the exception of its kind. -/
theorem classified_iff (hf : lib.FormatsPlain) :
    Classified lib str limiter r ↔ r.HeaderReads ∧ r.BodyReads :=
  ⟨fun h => ⟨h.headerReads, h.bodyReads⟩, fun h => .of_reads hf h.1 h.2⟩

/-! ## Some responses -/

/-- A status from 200 to 299 passes, and a message with a brace is not formatted. -/
def Libraries.sample : Libraries where
  raiseForStatus r :=
    if 200 ≤ r.statusCode ∧ r.statusCode ≤ 299 then none
    else some ("Status " ++ toString r.statusCode)
  format message :=
    if '{' ∈ message.toList ∨ '}' ∈ message.toList then some "Invalid format string" else none

theorem Libraries.sample_formatsPlain : Libraries.sample.FormatsPlain := by
  intro message hopen hclose
  exact if_neg (by simp [hopen, hclose])

/-- A 429 with `Retry-After: 120`. -/
theorem classified_429 :
    let r : HttpResponse := ⟨429, some "120", .unread⟩
    (Classified .sample (fun _ => "") .new r ↔ r.HeaderReads ∧ r.BodyReads) ∧
      Classified .sample (fun _ => "") .new r := by
  intro r
  have hiff : Classified .sample (fun _ => "") .new r ↔ r.HeaderReads ∧ r.BodyReads :=
    classified_iff Libraries.sample_formatsPlain
  refine ⟨hiff, hiff.mpr ⟨fun _ text ht => ?_, fun h => absurd h (by decide)⟩⟩
  cases ht
  decide

/-- A 429 and a 403 with a date, a 404 to a download and a 404 with a list. -/
theorem response_misread :
    let date := "Wed, 21 Oct 2015 07:28:00 GMT"
    (handleErrors .sample .new ⟨429, some date, .unread⟩).2 = .error (.valueError date) ∧
    (handleErrors .sample .new ⟨403, some date, .unread⟩).2 = .error (.valueError date) ∧
    (handleErrors .sample .new ⟨404, none, .unread⟩).2 = .error .responseNotRead ∧
    (handleErrors .sample .new ⟨404, none, .value (.list [])⟩).2 = .error (.attributeError "list") ∧
    ¬ Classified .sample (fun _ => "") .new ⟨429, some date, .unread⟩ ∧
    ¬ Classified .sample (fun _ => "") .new ⟨404, none, .unread⟩ := by
  refine ⟨rfl, rfl, rfl, rfl, fun h => ?_, fun h => ?_⟩
  · exact absurd (h.headerReads (.inl rfl) _ rfl) (by decide)
  · obtain ⟨fields, hfields⟩ := h.bodyReads rfl
    cases hfields

end FileExtractor

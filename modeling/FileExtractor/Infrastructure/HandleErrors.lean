import FileExtractor.Lib.PyInt
import FileExtractor.Infrastructure.CatalogClient

/-!
# The errors of a response

`CatalogClient._handle_errors` and `_safe_json` (`infrastructure/external_api/catalog_client.py`):
from the status, the header `Retry-After` and the body to the exception that is raised. What httpx
and loguru do is a parameter (`Libraries`).
-/

namespace FileExtractor

/-- A value of `json.loads`; a `float` is its literal. -/
inductive Json where
  | none
  | bool (b : Bool)
  | int (n : Int)
  | float (literal : String)
  | str (s : String)
  | list (items : List Json)
  | dict (fields : List (String × Json))

/-- `type(data).__name__`. -/
def Json.typeName : Json → String
  | none => "NoneType"
  | bool _ => "bool"
  | int _ => "int"
  | float _ => "float"
  | str _ => "str"
  | list _ => "list"
  | dict _ => "dict"

/-- What `response.json()` finds. -/
inductive Body where
  /-- The stream of the response is not read. -/
  | unread
  /-- No text, or a text that is not JSON, with the message of the `ValueError`. -/
  | invalid (message : String)
  /-- JSON that is nested too deeply for the parser. -/
  | tooDeep
  | value (data : Json)

structure HttpResponse where
  statusCode : Nat
  /-- The header `Retry-After`. -/
  retryAfter : Option String
  body : Body

/-- The exceptions of `_handle_errors`. -/
inductive Raised where
  | rateLimited (retryAfter : Int)
  | blocked (retryAfter : Int)
  | forbidden
  | notFound (detail : Json)
  | serverError (message : String)
  | parseError (message : String)
  /-- The `HTTPStatusError` of `raise_for_status()`. -/
  | httpStatusError (message : String)
  /-- `int(text)` raises a `ValueError`. -/
  | valueError (text : String)
  /-- The formatting of a message of the log raises. -/
  | formatError (message : String)
  /-- `data.get` of a value that is no `dict`. -/
  | attributeError (typeName : String)
  | responseNotRead
  | recursionError

/-- What is called of httpx and of loguru. -/
structure Libraries where
  /-- `response.raise_for_status()`: the message of its `HTTPStatusError`. -/
  raiseForStatus : HttpResponse → Option String
  /-- `message.format(status=…)`, which `logger.warning` calls: the message of its exception. -/
  format : String → Option String

namespace Libraries

variable (lib : Libraries)

def warning (message : String) : Except Raised Unit :=
  match lib.format message with
  | some e => throw (.formatError e)
  | none => pure ()

def checkStatus (r : HttpResponse) : Except Raised Unit :=
  match lib.raiseForStatus r with
  | some message => throw (.httpStatusError message)
  | none => pure ()

/-- A text without braces is formatted. -/
def FormatsPlain : Prop :=
  ∀ message, '{' ∉ message.toList → '}' ∉ message.toList → lib.format message = none

end Libraries

/-- `int(retry_after)`. -/
def intOf (text : String) : Except Raised Int :=
  match PyInt.ofText text with
  | some n => pure n
  | none => throw (.valueError text)

/-- `data.get(key, default)`: the last field of the name. -/
def Json.get (data : Json) (key : String) (default : Json) : Except Raised Json :=
  match data with
  | dict fields => pure (((fields.reverse.find? (·.1 = key)).map (·.2)).getD default)
  | _ => throw (.attributeError data.typeName)

/-- `_safe_json`. -/
def safeJson (body : Body) (context : String) : Except Raised Json :=
  match body with
  | .value data => pure data
  | .invalid message => throw (.parseError ("Invalid JSON in " ++ context ++ ": " ++ message))
  | .tooDeep => throw .recursionError
  | .unread => throw .responseNotRead

/-- `_handle_errors`: the limiter after it, and the exception if it raises. -/
def handleErrors (lib : Libraries) (limiter : AdaptiveRateLimiter) (r : HttpResponse) :
    AdaptiveRateLimiter × Except Raised Unit :=
  if r.statusCode = 429 then
    (limiter.onFailure, do
      let retryAfter := r.retryAfter.getD "60"
      lib.warning ("rate_limited retry_after=" ++ retryAfter ++ "s")
      throw (.rateLimited (← intOf retryAfter)))
  else if r.statusCode = 403 then
    match r.retryAfter with
    | some retryAfter =>
      (limiter.onFailure, do
        lib.warning ("blocked retry_after=" ++ retryAfter ++ "s")
        throw (.blocked (← intOf retryAfter)))
    | none =>
      (limiter, do
        lib.warning "forbidden"
        throw .forbidden)
  else if r.statusCode = 404 then
    (limiter, do
      let data ← safeJson r.body "handle_errors"
      throw (.notFound (← data.get "detail" (.str "Resource not found"))))
  else if 500 ≤ r.statusCode then
    (limiter, throw (.serverError ("Server error: " ++ toString r.statusCode)))
  else (limiter, lib.checkStatus r)

namespace Raised

/-- The attempt that ends with the exception. `str` is `str(e)` of one that the code does not
define, and `str(detail)`. -/
def response (str : Raised → String) : Raised → Response
  | .rateLimited retryAfter => .rateLimited retryAfter
  | .blocked retryAfter => .blocked retryAfter
  | .forbidden => .raised .forbidden
  | .notFound detail => .raised (.notFound (str (.notFound detail)))
  | .serverError message => .retryable (.serverError message)
  | .parseError message => .raised (.parseError message)
  | .httpStatusError message => .retryable (.other message)
  | .valueError text => .malformed (.other (str (.valueError text)))
  | .formatError message => .malformed (.other message)
  | e => .raised (.other (str e))

end Raised

end FileExtractor

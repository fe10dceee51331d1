import BuildBrowser.Decimal.Natural
import BuildBrowser.Endpoint
import BuildBrowser.Json.Fault

/-!
# Replies and call failures

A transport gives one reply to a request: the body of a successful answer, the code of an answer that
is not one, or the words of a failure to get any. A call fails if its reply is not a body, or if the
body is not the document that the call wants.
-/

namespace BuildBrowser.Api

/-- What a transport gives for a request. -/
inductive Reply where
  | body (content : Bytes)
  | status (code : UInt16)
  | failure (message : String)
  deriving DecidableEq, Repr

/-- A request: a call, with a body if it sends one. -/
structure Request where
  endpoint : Endpoint
  body : Option Bytes
  deriving DecidableEq, Repr

/-- Why a call failed. -/
inductive Error where
  | noFrontend
  | transport (endpoint : Endpoint) (message : String)
  | status (endpoint : Endpoint) (code : UInt16)
  | decode (endpoint : Endpoint) (error : Json.Error)
  deriving DecidableEq, Repr

namespace Error

/-- The words for a failed call. -/
def message : Error → String
  | .noFrontend => "no frontend URL configured"
  | .transport endpoint message => endpoint.requestLine ++ " failed: " ++ message
  | .status endpoint code =>
    endpoint.requestLine ++ " failed with HTTP code " ++ Decimal.numeral code.toNat
  | .decode endpoint error =>
    "failed to decode reply to " ++ endpoint.requestLine ++ ": " ++ error.message

/-- The code of an answer that was no success. -/
def status? : Error → Option UInt16
  | .status _ code => some code
  | _ => none

end Error

/-- The body of a reply, or the failure of the call. -/
def Reply.toExcept (endpoint : Endpoint) : Reply → Except Error Bytes
  | .body content => .ok content
  | .status code => .error (.status endpoint code)
  | .failure message => .error (.transport endpoint message)

end BuildBrowser.Api

import BuildBrowser.Api.Frontends
import BuildBrowser.Decimal.Natural
import BuildBrowser.Http.Url
import BuildBrowser.Program

/-!
# Calls over HTTP

A call goes to the URL made of the next frontend and the path of its endpoint. It is sent once; an
answer that redirects it is followed, up to ten times. `Wire` is what carries one request: a network
connection, or a scripted server.
-/

namespace BuildBrowser.Http

/-- One request as it goes over a connection. The headers about its body are there or not. -/
structure WireRequest where
  method : Method
  url : Url
  contentType : Option String
  contentLength : Option String
  body : Bytes
  deriving DecidableEq, Repr

/-- What comes back: an answer, whose body may have been cut short, or a connection that was refused
or closed. -/
inductive WireReply where
  | answer (status : Nat) (location : Option String) (body : Bytes) (complete : Bool)
  | closed
  deriving DecidableEq, Repr

instance : Inhabited WireReply := ⟨.closed⟩

/-- What carries requests. -/
abbrev Wire (m : Type → Type) := WireRequest → m WireReply

/-- The request of a call at a URL. A body is declared as JSON; a call that writes and has no body
says that its length is zero. -/
def WireRequest.ofCall (url : Url) (request : Api.Request) : WireRequest :=
  let method := request.endpoint.method
  match request.body with
  | some body =>
    { method, url, body
      contentType := some "application/json"
      contentLength :=
        if body.isEmpty then none else some (Decimal.numeral body.length) }
  | none =>
    { method, url
      body := []
      contentType := none
      contentLength := if method = .get then none else some "0" }

/-- The request without a body that reads a URL. -/
def WireRequest.reading (url : Url) : WireRequest :=
  ⟨.get, url, none, none, []⟩

/-- The request that follows a redirection with some status, if that status redirects. Codes 301 and
302 turn a POST into a GET, 303 turns everything into one, and the others keep method and body. -/
def redirected? (status : Nat) (request : WireRequest) (url : Url) : Option WireRequest :=
  if status = 301 ∨ status = 302 then
    some (if request.method = .post then .reading url else { request with url })
  else if status = 303 then some (.reading url)
  else if status = 307 ∨ status = 308 then some { request with url }
  else none

/-- How many redirections of one call are followed. -/
def maxRedirects : Nat := 10

/-- The words for a URL that cannot be sent to. -/
def badUrl (url : String) : Api.Reply :=
  .failure ("builder error for url (" ++ url ++ ")")

/-- The reply of an answer that is no redirection. -/
def finalReply (status : Nat) (body : Bytes) (complete : Bool) : Api.Reply :=
  if 200 ≤ status ∧ status < 300 then
    if complete then .body body else .failure "error decoding response body"
  else .status status.toUInt16

/-- What an answer redirects a request to, if it does: the request that goes out next, or the text of a
URL that cannot be sent to. An address that is no URL does not count. -/
def redirection? (request : WireRequest) (status : Nat) (location : Option String) :
    Option (Except String WireRequest) :=
  match location, redirected? status request request.url with
  | some address, some _ =>
    match join request.url address with
    | .invalid => none
    | .foreign text => some (.error text)
    | .url url =>
      if url.isWeb then (redirected? status request url).map .ok else some (.error url.text)
  | _, _ => none

/-- The reply of a call whose connection was refused or closed. -/
def unanswered (first : Url) : Api.Reply :=
  .failure ("error sending request for url (" ++ first.text ++ ")")

/-- The reply to a request, with so many redirections left to follow. `first` is the URL that the
call was sent to. -/
def follow {m : Type → Type} [Monad m] (wire : Wire m) (first : Url) :
    (left : Nat) → WireRequest → m Api.Reply
  | 0, request => do
    match ← wire request with
    | .closed => return unanswered first
    | .answer status location body complete =>
      match redirection? request status location with
      | none => return finalReply status body complete
      | some _ =>
        return .failure ("error following redirect for url (" ++ request.url.text ++ ")")
  | left + 1, request => do
    match ← wire request with
    | .closed => return unanswered first
    | .answer status location body complete =>
      match redirection? request status location with
      | none => return finalReply status body complete
      | some (.error text) => return badUrl text
      | some (.ok next) => follow wire first left next

/-- The reply to a call at a text that should be a URL. -/
def deliver {m : Type → Type} [Monad m] (wire : Wire m) (address : String)
    (request : Api.Request) : m Api.Reply :=
  match parse address with
  | .invalid => return .failure "builder error"
  | .foreign text => return badUrl text
  | .url url =>
    if url.isWeb then follow wire url maxRedirects (.ofCall url request) else return badUrl url.text

/-- The reply to a call, sent to the next frontend. -/
def send {m : Type → Type} [Monad m] (wire : Wire m) (request : Api.Request) :
    StateT Api.Frontends m Api.Reply := fun frontends => do
  let (base, frontends) := frontends.next
  return (← deliver wire (base ++ request.endpoint.path) request, frontends)

end BuildBrowser.Http

import BuildBrowser.Api.Script
import BuildBrowser.Http.Message

/-!
# A scripted HTTP server

The server listens at one address. It answers a request from the queue of its method and target, with
code 404 and no body where it has none, and records what it has seen. A request to any other address
finds nobody there.
-/

namespace BuildBrowser.Http

/-- A scripted answer. It may be no answer but the end of the connection, and its body may be
announced longer than it is. -/
structure ScriptedAnswer where
  status : Nat
  location : Option String
  body : Bytes
  closes : Bool
  missing : Nat
  deriving DecidableEq, Repr

/-- What comes back for an answer. -/
def ScriptedAnswer.reply (answer : ScriptedAnswer) : WireReply :=
  if answer.closes then .closed
  else if isBodiless answer.status then .answer answer.status answer.location [] true
  else .answer answer.status answer.location answer.body (answer.missing = 0)

/-- A scripted server: where it listens, its answers, and the requests that it has seen. -/
structure Server where
  authority : String
  answers : Script ScriptedAnswer
  seen : List WireRequest

namespace Server

/-- The server that listens at an address and has neither answers nor requests. -/
def listening (authority : String) : Server :=
  ⟨authority, [], []⟩

/-- The server with one more answer to a method and target. -/
def push (line : String) (answer : ScriptedAnswer) (server : Server) : Server :=
  { server with answers := Script.push line answer server.answers }

/-- The server as a carrier of requests. -/
def wire : Wire (StateM Server) := fun request server =>
  if request.url.scheme = "http" ∧ request.url.authority = server.authority then
    let line := request.method.text ++ " " ++ request.url.target
    let (answer?, answers) := Script.take line server.answers
    ((answer?.map ScriptedAnswer.reply).getD (.answer 404 none [] true),
      { server with answers, seen := server.seen ++ [request] })
  else (.closed, server)

end Server

end BuildBrowser.Http

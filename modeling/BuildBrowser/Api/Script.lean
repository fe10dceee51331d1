import BuildBrowser.Program

/-!
# Scripted replies — a server that answers from a list

A script holds a queue of replies for each key. A question takes the first reply of its queue as long
as there is another behind it; the last one stays and answers from then on. `Server` answers requests
from a script keyed by request line, with code 404 where it has no reply, and records the requests
and those of them that carried a body.
-/

namespace BuildBrowser

/-- Queues of replies by key. -/
abbrev Script (ρ : Type) := Members (List ρ)

namespace Script

variable {ρ : Type}

/-- The script with a reply at the end of a queue. -/
def push (key : String) (reply : ρ) (script : Script ρ) : Script ρ :=
  Members.insert key ((Members.find? key script).getD [] ++ [reply]) script

/-- The reply to a question, if its queue has one, and the script after it. -/
def take (key : String) (script : Script ρ) : Option ρ × Script ρ :=
  match Members.find? key script with
  | some (reply :: next :: rest) => (some reply, Members.insert key (next :: rest) script)
  | some [reply] => (some reply, script)
  | _ => (none, script)

end Script

namespace Api

/-- A scripted server: its replies, the requests it has seen, and the requests with a body. -/
structure Server where
  replies : Script Reply
  calls : List Endpoint
  bodies : List (Endpoint × Bytes)

namespace Server

/-- The server that has no replies and has seen nothing. -/
def empty : Server :=
  ⟨[], [], []⟩

/-- The server with one more reply to a call. -/
def push (endpoint : Endpoint) (reply : Reply) (server : Server) : Server :=
  { server with replies := Script.push endpoint.requestLine reply server.replies }

/-- The server's reply to a request, and the server after it. -/
def send (request : Request) (server : Server) : Reply × Server :=
  let (reply?, replies) := Script.take request.endpoint.requestLine server.replies
  (reply?.getD (.status 404),
    { replies
      calls := server.calls ++ [request.endpoint]
      bodies := server.bodies ++ (request.body.toList.map fun body => (request.endpoint, body)) })

/-- The server with its records forgotten. -/
def clear (server : Server) : Server :=
  { server with calls := [], bodies := [] }

end Server

end Api

end BuildBrowser

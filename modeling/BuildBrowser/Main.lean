import BuildBrowser.CommandLine.Execution
import BuildBrowser.Http.Message
import Std.Async.DNS
import Std.Async.TCP
import Std.Async.Timer

/-!
# The program

Connections, files and streams for the command line. Each request has a connection of its own, and
one that cannot be made, or takes longer than the environment allows, counts as closed. Connections
are not encrypted, so nobody is found at an address that asks for that.
-/

namespace BuildBrowser.Main

open Std.Async

/-! ## Connections -/

/-- The socket addresses of a URL. -/
def socketAddresses (url : Http.Url) : Async (Array Std.Net.SocketAddress) := do
  let port := (url.port.getD 80).toUInt16
  let found ← DNS.getAddrInfo url.host (Decimal.numeral port.toNat)
  return found.map fun
    | .v4 addr => .v4 ⟨addr, port⟩
    | .v6 addr => .v6 ⟨addr, port⟩

/-- All bytes that come over a connection until it ends. -/
partial def receiveAll (client : TCP.Socket.Client) (received : ByteArray) : Async ByteArray := do
  match ← client.recv? 65536 with
  | some bytes => receiveAll client (received ++ bytes)
  | none => return received

/-- Carries a request to a socket address. -/
def converse (request : Http.WireRequest) (address : Std.Net.SocketAddress) :
    Async Http.WireReply := do
  let client ← TCP.Socket.Client.mk
  client.connect address
  client.send ⟨request.message.toArray⟩
  return .ofMessage (← receiveAll client .empty).toList

/-- Carries a request to the first of some socket addresses that can be talked to. -/
def converseAny (request : Http.WireRequest) :
    List Std.Net.SocketAddress → Async Http.WireReply
  | [] => return .closed
  | address :: rest => do
    try converse request address
    catch _ => converseAny request rest

/-- Carries a request over the network. -/
def exchange (request : Http.WireRequest) : Async Http.WireReply := do
  if request.url.scheme ≠ "http" then return .closed
  try converseAny request (← socketAddresses request.url).toList
  catch _ => return .closed

/-- The reply of an exchange that may take so many milliseconds, or any time at all. -/
def exchangeWithin (limit : Option UInt64) (request : Http.WireRequest) : IO Http.WireReply :=
  match limit with
  | none => (exchange request).block
  | some ms => do
    let expired : Async Http.WireReply := do
      sleep (.ofNat ms.toNat)
      return .closed
    (Async.race (exchange request) expired).block

/-! ## Files and streams -/

/-- The number of a system error, which may come negated. -/
def errorNumber (code : UInt32) : UInt32 :=
  if code < 0x80000000 then code else 0 - code

/-- The fault of a numbered system error. -/
def numberedFault (code : UInt32) (message : String) : FileFault :=
  match errorNumber code with
  | 20 => .notDirectory
  | 21 => .isDirectory
  | 28 => .noSpace
  | 36 => .nameTooLong
  | _ => .other message

/-- The fault of an error that the system reports. -/
def fileFault : IO.Error → FileFault
  | .noFileOrDirectory .. => .notFound
  | .permissionDenied .. => .denied
  | .inappropriateType _ code message => numberedFault code message
  | .invalidArgument _ code message => numberedFault code message
  | .resourceExhausted _ code message => numberedFault code message
  | error => .other error.toString

/-- An action on files, with its error as a fault. -/
def onFiles {α : Type} (action : IO α) : IO (Except FileFault α) := do
  return (← action.toBaseIO).mapError fileFault

/-- The network and the files of the system. -/
def host (limit : Option UInt64) : CommandLine.Host IO where
  wire := exchangeWithin limit
  load path := onFiles do return (← IO.FS.readBinFile path).toList
  save path content := onFiles (IO.FS.writeBinFile path ⟨content.toArray⟩)

/-- The variables of the system that the browser looks at. -/
def environment : IO Environment := do
  return ⟨← IO.getEnv "NO_COLOR", ← IO.getEnv "COLOR", ← IO.getEnv "DISTCI_URL",
    ← IO.getEnv "DISTCI_TIMEOUT_MS", ← IO.getEnv "DISTCI_LOG"⟩

end BuildBrowser.Main

/-- Runs the command line of the browser. -/
def main (words : List String) : IO UInt32 := do
  let env ← BuildBrowser.Main.environment
  let finish ← BuildBrowser.CommandLine.execute (BuildBrowser.Main.host env.timeoutMs) env words
  let output ← IO.getStdout
  output.write ⟨finish.output.toArray⟩
  output.flush
  (← IO.getStderr).putStr finish.errors
  return finish.code.toUInt32

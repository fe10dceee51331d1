import BuildBrowser.Api.Error

/-!
# Programs — what the browser asks of the world

A program is a value: it is finished, or it asks for one thing and says how it goes on with each
answer, or it writes something and goes on. It asks for a reply to a request, for the content of a
file, or for a file to be written. Writing has no answer: it is taken to succeed.

`Program.run` answers the questions by a `World`, such as a network or a script; `Run` relates a
program to the events of a run with any answers at all, and is what laws about every server speak of.
-/

namespace BuildBrowser

/-- Why a file cannot be read or written. -/
inductive FileFault where
  | notFound
  | notDirectory
  | isDirectory
  | denied
  | noSpace
  | nameTooLong
  | zeroInName
  | other (message : String)
  deriving DecidableEq, Repr

/-- The words for a file fault. -/
def FileFault.message : FileFault → String
  | .notFound => "No such file or directory (os error 2)"
  | .denied => "Permission denied (os error 13)"
  | .notDirectory => "Not a directory (os error 20)"
  | .isDirectory => "Is a directory (os error 21)"
  | .noSpace => "No space left on device (os error 28)"
  | .nameTooLong => "File name too long (os error 36)"
  | .zeroInName => "file name contained an unexpected NUL byte"
  | .other message => message

/-- What is written: a part of the output, or a notice beside it that is no part of the output. -/
inductive Written where
  | output (content : Bytes)
  | notice (text : String)
  deriving DecidableEq, Repr

/-- A computation that asks the world for replies and files, and writes. -/
inductive Program (α : Type) where
  | done (a : α)
  | send (request : Api.Request) (next : Api.Reply → Program α)
  | load (path : String) (next : Except FileFault Bytes → Program α)
  | save (path : String) (content : Bytes) (next : Except FileFault Unit → Program α)
  | write (what : Written) (next : Program α)

namespace Program

variable {α β : Type}

/-- A program, and then another that is given its result. -/
def bind : Program α → (α → Program β) → Program β
  | .done a, f => f a
  | .send request next, f => .send request fun reply => bind (next reply) f
  | .load path next, f => .load path fun answer => bind (next answer) f
  | .save path content next, f => .save path content fun answer => bind (next answer) f
  | .write what next, f => .write what (bind next f)

instance : Monad Program where
  pure := .done
  bind := bind

/-- The one-request program. -/
def request (endpoint : Endpoint) (body : Option Bytes) : Program Api.Reply :=
  .send ⟨endpoint, body⟩ .done

/-! ## Runs -/

/-- What a world does with each question, and with what is written. -/
structure World (m : Type → Type) where
  send : Api.Request → m Api.Reply
  load : String → m (Except FileFault Bytes)
  save : String → Bytes → m (Except FileFault Unit)
  write : Written → m Unit

/-- The result of a program in a world. -/
def run {m : Type → Type} [Monad m] (world : World m) : Program α → m α
  | .done a => pure a
  | .send request next => do run world (next (← world.send request))
  | .load path next => do run world (next (← world.load path))
  | .save path content next => do run world (next (← world.save path content))
  | .write what next => do
    world.write what
    run world next

end Program

/-- A question with its answer, or what is written. -/
inductive Event where
  | sent (request : Api.Request) (reply : Api.Reply)
  | loaded (path : String) (answer : Except FileFault Bytes)
  | saved (path : String) (content : Bytes) (answer : Except FileFault Unit)
  | wrote (what : Written)

/-- A program comes to a result by these events, in this order. -/
inductive Run {α : Type} : Program α → List Event → α → Prop
  | done (a : α) : Run (.done a) [] a
  | send {request : Api.Request} {next : Api.Reply → Program α} {events : List Event} {a : α}
      (reply : Api.Reply) (rest : Run (next reply) events a) :
      Run (.send request next) (.sent request reply :: events) a
  | load {path : String} {next : Except FileFault Bytes → Program α} {events : List Event}
      {a : α} (answer : Except FileFault Bytes) (rest : Run (next answer) events a) :
      Run (.load path next) (.loaded path answer :: events) a
  | save {path : String} {content : Bytes} {next : Except FileFault Unit → Program α}
      {events : List Event} {a : α} (answer : Except FileFault Unit)
      (rest : Run (next answer) events a) :
      Run (.save path content next) (.saved path content answer :: events) a
  | write {what : Written} {next : Program α} {events : List Event} {a : α}
      (rest : Run next events a) : Run (.write what next) (.wrote what :: events) a

/-! ## What events tell -/

/-- The requests among events, in order. -/
def requests (events : List Event) : List Api.Request :=
  events.filterMap fun
    | .sent request _ => some request
    | _ => none

/-- The questions among events, with their answers. -/
def questions (events : List Event) : List Event :=
  events.filter fun
    | .wrote _ => false
    | _ => true

/-- All that has been written, the output and the notices, each in order. -/
structure Streams where
  output : Bytes
  notices : String
  deriving DecidableEq, Repr

namespace Streams

/-- Nothing has been written. -/
def empty : Streams :=
  ⟨[], ""⟩

/-- The streams after something was written. -/
def add (streams : Streams) : Written → Streams
  | .output content => { streams with output := streams.output ++ content }
  | .notice text => { streams with notices := streams.notices ++ text }

end Streams

/-- What was written, after what had been written before. -/
def writtenAfter (streams : Streams) : List Event → Streams
  | [] => streams
  | .wrote what :: events => writtenAfter (streams.add what) events
  | _ :: events => writtenAfter streams events

/-- What was written by events. -/
def written (events : List Event) : Streams :=
  writtenAfter .empty events

end BuildBrowser

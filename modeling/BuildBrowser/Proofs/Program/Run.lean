import BuildBrowser.Api.Client

/-!
# Runs of programs, by their shape

A run is taken apart along the program: a finished program has no events, a question or something
written is one event before the rest, and a program in two steps has the events of the first before
those of the second. Each law is an equivalence, so it says both what every run does and that there is
one for every way of answering. **Adequacy** (`exists_run`): what a program does in a world is one of
its runs, and what the world is given to write is what that run writes, so a law about all runs is a law
about every server and every disk.
-/

namespace BuildBrowser

variable {α β : Type}

/-! ## The shape of a run -/

theorem run_pure {a b : α} {events : List Event} :
    Run (pure a : Program α) events b ↔ events = [] ∧ b = a := by
  constructor
  · intro h
    cases h
    exact ⟨rfl, rfl⟩
  · rintro ⟨rfl, rfl⟩
    exact .done b

theorem run_send {request : Api.Request} {next : Api.Reply → Program α} {events : List Event}
    {a : α} :
    Run (.send request next) events a ↔
      ∃ reply rest, events = .sent request reply :: rest ∧ Run (next reply) rest a := by
  constructor
  · intro h
    cases h with
    | send reply rest => exact ⟨reply, _, rfl, rest⟩
  · rintro ⟨reply, rest, rfl, h⟩
    exact .send reply h

theorem run_load {path : String} {next : Except FileFault Bytes → Program α} {events : List Event}
    {a : α} :
    Run (.load path next) events a ↔
      ∃ answer rest, events = .loaded path answer :: rest ∧ Run (next answer) rest a := by
  constructor
  · intro h
    cases h with
    | load answer rest => exact ⟨answer, _, rfl, rest⟩
  · rintro ⟨answer, rest, rfl, h⟩
    exact .load answer h

theorem run_save {path : String} {content : Bytes} {next : Except FileFault Unit → Program α}
    {events : List Event} {a : α} :
    Run (.save path content next) events a ↔
      ∃ answer rest, events = .saved path content answer :: rest ∧ Run (next answer) rest a := by
  constructor
  · intro h
    cases h with
    | save answer rest => exact ⟨answer, _, rfl, rest⟩
  · rintro ⟨answer, rest, rfl, h⟩
    exact .save answer h

theorem run_write {what : Written} {next : Program α} {events : List Event} {a : α} :
    Run (.write what next) events a ↔ ∃ rest, events = .wrote what :: rest ∧ Run next rest a := by
  constructor
  · intro h
    cases h with
    | write rest => exact ⟨_, rfl, rest⟩
  · rintro ⟨rest, rfl, h⟩
    exact .write h

/-- Something is written at the end. -/
theorem run_write_done {what : Written} {a b : α} {events : List Event} :
    Run (.write what (.done a)) events b ↔ events = [.wrote what] ∧ b = a := by
  rw [run_write]
  constructor
  · rintro ⟨rest, rfl, finished⟩
    obtain ⟨rfl, rfl⟩ := run_pure.mp finished
    exact ⟨rfl, rfl⟩
  · rintro ⟨rfl, rfl⟩
    exact ⟨[], rfl, .done b⟩

theorem send_bind (request : Api.Request) (next : Api.Reply → Program α) (f : α → Program β) :
    (.send request next : Program α) >>= f = .send request fun reply => next reply >>= f :=
  rfl

/-- A run of a first step goes on with a run of the second. -/
theorem Run.bind {p : Program α} {f : α → Program β} {before after : List Event} {a : α} {b : β}
    (first : Run p before a) (second : Run (f a) after b) :
    Run (p.bind f) (before ++ after) b := by
  induction first with
  | done a => exact second
  | send reply _ ih => exact .send reply (ih second)
  | load answer _ ih => exact .load answer (ih second)
  | save answer _ ih => exact .save answer (ih second)
  | write _ ih => exact .write (ih second)

/-- A run of two steps is cut where the first one ends. -/
theorem Run.of_bind {p : Program α} {f : α → Program β} {events : List Event} {b : β}
    (h : Run (p.bind f) events b) :
    ∃ before after a, events = before ++ after ∧ Run p before a ∧ Run (f a) after b := by
  induction p generalizing events with
  | done a => exact ⟨[], events, a, rfl, .done a, h⟩
  | send request next ih =>
    cases h with
    | send reply rest =>
      obtain ⟨before, after, a, rfl, first, second⟩ := ih reply rest
      exact ⟨.sent request reply :: before, after, a, rfl, .send reply first, second⟩
  | load path next ih =>
    cases h with
    | load answer rest =>
      obtain ⟨before, after, a, rfl, first, second⟩ := ih answer rest
      exact ⟨.loaded path answer :: before, after, a, rfl, .load answer first, second⟩
  | save path content next ih =>
    cases h with
    | save answer rest =>
      obtain ⟨before, after, a, rfl, first, second⟩ := ih answer rest
      exact ⟨.saved path content answer :: before, after, a, rfl, .save answer first, second⟩
  | write what next ih =>
    cases h with
    | write rest =>
      obtain ⟨before, after, a, rfl, first, second⟩ := ih rest
      exact ⟨.wrote what :: before, after, a, rfl, .write first, second⟩

/-- **Two steps**: the events of the first, and then those of the second with its result. -/
theorem run_bind {p : Program α} {f : α → Program β} {events : List Event} {b : β} :
    Run (p >>= f) events b ↔
      ∃ before after a, events = before ++ after ∧ Run p before a ∧ Run (f a) after b := by
  constructor
  · intro h
    exact h.of_bind
  · rintro ⟨before, after, a, rfl, first, second⟩
    exact first.bind second

/-- A step whose result is only changed adds no event. -/
theorem run_bind_pure {p : Program α} {f : α → β} {events : List Event} {b : β} :
    Run (p >>= fun a => pure (f a)) events b ↔ ∃ a, Run p events a ∧ b = f a := by
  rw [run_bind]
  constructor
  · rintro ⟨before, after, a, rfl, first, second⟩
    obtain ⟨rfl, rfl⟩ := run_pure.mp second
    rw [List.append_nil]
    exact ⟨a, first, rfl⟩
  · rintro ⟨a, first, rfl⟩
    exact ⟨events, [], a, (List.append_nil events).symm, first, run_pure.mpr ⟨rfl, rfl⟩⟩

/-! ## One request -/

/-- The program of one request, with what it makes of the reply. -/
def Program.ask (request : Api.Request) (make : Api.Reply → α) : Program α :=
  .send request fun reply => .done (make reply)

/-- **One request**: whatever the reply is, it is all that the result depends on. -/
theorem run_ask {request : Api.Request} {make : Api.Reply → α} {events : List Event} {a : α} :
    Run (.ask request make) events a ↔
      ∃ reply, events = [.sent request reply] ∧ a = make reply := by
  rw [Program.ask, run_send]
  constructor
  · rintro ⟨reply, rest, rfl, finished⟩
    obtain ⟨rfl, rfl⟩ := run_pure.mp finished
    exact ⟨reply, rfl, rfl⟩
  · rintro ⟨reply, rfl, rfl⟩
    exact ⟨reply, [], rfl, .done _⟩

/-! ## What events tell -/

@[simp] theorem requests_sent (request : Api.Request) (reply : Api.Reply) (events : List Event) :
    requests (.sent request reply :: events) = request :: requests events :=
  rfl

theorem requests_append (before after : List Event) :
    requests (before ++ after) = requests before ++ requests after :=
  List.filterMap_append

@[simp] theorem questions_sent (request : Api.Request) (reply : Api.Reply) (events : List Event) :
    questions (.sent request reply :: events) = .sent request reply :: questions events :=
  rfl

theorem questions_append (before after : List Event) :
    questions (before ++ after) = questions before ++ questions after :=
  List.filter_append ..

@[simp] theorem written_sent (request : Api.Request) (reply : Api.Reply) (events : List Event) :
    written (.sent request reply :: events) = written events :=
  rfl

/-- What is put out at the end is the output, if nothing was before it. -/
@[simp] theorem written_output (content : Bytes) :
    (written [.wrote (.output content)]).output = content :=
  rfl

@[simp] theorem written_notice_output (text : String) (content : Bytes) :
    (written [.wrote (.notice text), .wrote (.output content)]).output = content :=
  rfl

/-- Questions write nothing. -/
theorem written_append_of_questions {before : List Event} (h : questions before = before)
    (after : List Event) : written (before ++ after) = written after := by
  have hquestions := List.filter_eq_self.mp h
  clear h
  induction before with
  | nil => rfl
  | cons event before ih =>
    obtain ⟨hevent, hbefore⟩ := List.forall_mem_cons.mp hquestions
    cases event with
    | sent | loaded | saved => exact ih hbefore
    | wrote => cases hevent

/-! ## Adequacy -/

/-- A world has a part of its state for what is written: questions leave that as it is, and it gets what
is written. What else there is, such as a network, has a state of its own. -/
structure Program.World.Keeps {τ σ : Type} (world : Program.World (StateT τ (StateM σ)))
    (streams : τ → Streams) : Prop where
  send : ∀ request t s, streams (((world.send request).run t).run s).1.2 = streams t
  load : ∀ path t s, streams (((world.load path).run t).run s).1.2 = streams t
  save : ∀ path content t s, streams (((world.save path content).run t).run s).1.2 = streams t
  write : ∀ what t s, streams (((world.write what).run t).run s).1.2 = (streams t).add what

/-- **What a program does in a world is a run**, whatever state the world keeps, and the run writes what
the world gets. -/
theorem exists_run {τ σ : Type} {world : Program.World (StateT τ (StateM σ))}
    {streams : τ → Streams} (keeps : world.Keeps streams) (p : Program α) (t : τ) (s : σ) :
    ∃ events, Run p events (((p.run world).run t).run s).1.1 ∧
      streams (((p.run world).run t).run s).1.2 = writtenAfter (streams t) events := by
  induction p generalizing t s with
  | done a => exact ⟨[], .done a, rfl⟩
  | send request next ih =>
    let answer := ((world.send request).run t).run s
    obtain ⟨events, h, hstreams⟩ := ih answer.1.1 answer.1.2 answer.2
    exact ⟨_, .send _ h, hstreams.trans (congrArg (writtenAfter · events) (keeps.send request t s))⟩
  | load path next ih =>
    let answer := ((world.load path).run t).run s
    obtain ⟨events, h, hstreams⟩ := ih answer.1.1 answer.1.2 answer.2
    exact ⟨_, .load _ h, hstreams.trans (congrArg (writtenAfter · events) (keeps.load path t s))⟩
  | save path content next ih =>
    let answer := ((world.save path content).run t).run s
    obtain ⟨events, h, hstreams⟩ := ih answer.1.1 answer.1.2 answer.2
    exact ⟨_, .save _ h, hstreams.trans (congrArg (writtenAfter · events) (keeps.save path content t s))⟩
  | write what next ih =>
    let answer := ((world.write what).run t).run s
    obtain ⟨events, h, hstreams⟩ := ih answer.1.2 answer.2
    exact ⟨_, .write h, hstreams.trans (congrArg (writtenAfter · events) (keeps.write what t s))⟩

end BuildBrowser

import BuildBrowser.Proofs.Http.Flow
import Mathlib.Data.Int.CardIntervalMod

/-!
# Calls rotate over the frontends

A client has frontends and a counter of calls, and all handles of the client share them. Whoever holds
a handle can make calls and copy the handle, and the calls of all of them are under way at the same
time: `Traffic` is the state of this, and an `Action` is the next thing that happens to it, whichever
holder it is that acts or is answered. What runs concurrently is a list of actions in some order. A call
takes its frontend and advances the counter in one step, so the calls of a client stand in the order of
its counter (`Client.calls`); the rest of a call is its own (`Flow`), and mixes with others in any way.

The invariant is `Client.InTurn`: the counter is the number of calls, and each call has the frontend at
its number, modulo the number of frontends, and has come to what it is by delivering there. Every
action keeps it (`keeps_act`), however it ends, so every run does (`keeps_foldl`). **So the calls rotate
fairly** (`calls_rotate_fairly`), as long as 64 bits count them.

Which calls these are is told by the actions alone: `requestsThrough` marks the handle that a client was
made with and every copy of a marked handle, and takes the requests made through marked ones. These are the
calls of the client, in order (`Traffic.tallies_foldl`): no holder has a counter of its own.
-/

namespace BuildBrowser

namespace Api.Frontends

theorem getElem?_index (frontends : Frontends) :
    frontends.urls[frontends.index]? = some frontends.next.1 :=
  List.getElem?_eq_getElem frontends.index_lt

/-- Frontends are set up with nothing counted. -/
theorem used_of_ofTexts {texts : List String} {made : Frontends} (h : ofTexts texts = .ok made) :
    made.used = 0 := by
  unfold ofTexts at h
  dsimp only at h
  split at h
  · cases h
  · cases h
    rfl

end Api.Frontends

namespace Http

/-! ## Calls of many holders -/

/-- A call of a client: the place of its frontend, the frontend, what it asks for, what has gone over
the wire for it, and what is left of it. -/
structure Flight where
  place : Nat
  base : String
  request : Api.Request
  exchanges : List (WireRequest × WireReply)
  rest : Flow Api.Reply

/-- A call that is made: it has the next frontend, and nothing has gone over the wire for it. -/
def Flight.start (frontends : Api.Frontends) (request : Api.Request) : Flight :=
  ⟨frontends.index, frontends.next.1, request, [],
    deliver Flow.wire (frontends.next.1 ++ request.endpoint.path) request⟩

/-- The call with an answer to its request, if it has one out. -/
def Flight.answered (answer : WireReply) (call : Flight) : Flight :=
  match call.rest with
  | .done _ => call
  | .ask request next =>
    { call with exchanges := call.exchanges ++ [(request, answer)], rest := next answer }

/-- What the handles of a client share, and the calls through all of them, in the order in which they
advanced the counter. -/
structure Client where
  frontends : Api.Frontends
  calls : List Flight

namespace Client

/-- The client after one more call, which takes its frontend and advances the counter at once. -/
def call (request : Api.Request) (client : Client) : Client :=
  ⟨client.frontends.next.2, client.calls ++ [.start client.frontends request]⟩

/-- The client after an answer to one of its calls. -/
def answer (call : Nat) (answer : WireReply) (client : Client) : Client :=
  { client with calls := client.calls.modify call (Flight.answered answer) }

end Client

/-- All clients that were made, and the handles that are held, each with the place of its client. -/
structure Traffic where
  clients : List Client
  handles : List Nat

/-- One thing that happens: a client is made from configured texts, if they name frontends, and a handle
of it is held; a handle is copied; a call is made through a handle; or a call of a client is answered. -/
inductive Action where
  | make (texts : List String)
  | clone (handle : Nat)
  | call (handle : Nat) (request : Api.Request)
  | answer (client call : Nat) (answer : WireReply)

namespace Traffic

/-- The traffic after an action. What names no handle, client or call does nothing. -/
def act (traffic : Traffic) : Action → Traffic
  | .make texts =>
    match Api.Frontends.ofTexts texts with
    | .error _ => traffic
    | .ok frontends =>
      ⟨traffic.clients ++ [⟨frontends, []⟩], traffic.handles ++ [traffic.clients.length]⟩
  | .clone handle => { traffic with handles := traffic.handles ++ traffic.handles[handle]?.toList }
  | .call handle request =>
    match traffic.handles[handle]? with
    | none => traffic
    | some client => { traffic with clients := traffic.clients.modify client (Client.call request) }
  | .answer client call answer =>
    { traffic with clients := traffic.clients.modify client (Client.answer call answer) }

/-- The traffic after actions, one after another, where nothing was before. -/
def after (actions : List Action) : Traffic :=
  actions.foldl act ⟨[], []⟩

end Traffic

/-! ## Calls in turn -/

/-- The call with some number, from zero, has the frontend whose turn it was, and delivering there has
brought it to what it is. -/
structure Flight.InTurn (urls : List String) (number : Nat) (call : Flight) : Prop where
  place : call.place = (UInt64.ofNat number).toNat % urls.length
  base : urls[call.place]? = some call.base
  reached : (deliver Flow.wire (call.base ++ call.request.endpoint.path) call.request).Reached
    call.exchanges call.rest

/-- The counter of the client has counted its calls, and each of them is in turn. -/
structure Client.InTurn (urls : List String) (client : Client) : Prop where
  bases : client.frontends.urls = urls
  counted : client.frontends.used = UInt64.ofNat client.calls.length
  each : ∀ number (call : Flight), client.calls[number]? = some call → call.InTurn urls number

theorem Flight.inTurn_start {frontends : Api.Frontends} {number : Nat}
    (h : frontends.used = UInt64.ofNat number) (request : Api.Request) :
    (Flight.start frontends request).InTurn frontends.urls number where
  place := by rw [← h]; rfl
  base := frontends.getElem?_index
  reached := .start

/-- An answer leaves a call its frontend and takes it on, or finds it over. -/
theorem Flight.InTurn.answered {urls : List String} {number : Nat} {call : Flight}
    (h : call.InTurn urls number) (answer : WireReply) :
    (call.answered answer).InTurn urls number := by
  have hreached := h.reached
  unfold Flight.answered
  split
  · exact h
  · next request next hrest =>
    rw [hrest] at hreached
    exact ⟨h.place, h.base, hreached.answered answer⟩

namespace Client.InTurn

variable {urls : List String} {client : Client}

theorem call (h : client.InTurn urls) (request : Api.Request) : (client.call request).InTurn urls where
  bases := h.bases
  counted := by
    change client.frontends.used + 1 = UInt64.ofNat (client.calls ++ [_]).length
    rw [List.length_append, List.length_singleton, UInt64.ofNat_add, h.counted]
    rfl
  each := by
    intro number call hcall
    rw [Client.call, List.getElem?_append] at hcall
    split at hcall
    · exact h.each number call hcall
    · next hnumber =>
      rw [List.getElem?_singleton] at hcall
      obtain ⟨hlast, ⟨⟩⟩ := Option.ite_none_right_eq_some.mp hcall
      obtain rfl : number = client.calls.length := by omega
      rw [← h.bases]
      exact Flight.inTurn_start h.counted request

theorem answer (h : client.InTurn urls) (number : Nat) (answer : WireReply) :
    (client.answer number answer).InTurn urls where
  bases := h.bases
  counted := by
    rw [Client.answer, List.length_modify]
    exact h.counted
  each := by
    intro other call hcall
    rw [Client.answer, List.getElem?_modify] at hcall
    obtain ⟨found, hfound, rfl⟩ := Option.map_eq_some_iff.mp hcall
    split
    · exact (h.each other found hfound).answered answer
    · exact h.each other found hfound

end Client.InTurn

/-! ## Every run -/

namespace Traffic

/-- The traffic has a client with these frontends, in turn, at this place. -/
def Keeps (urls : List String) (client : Nat) (traffic : Traffic) : Prop :=
  ∃ state, traffic.clients[client]? = some state ∧ state.InTurn urls

variable {urls : List String} {client : Nat} {traffic : Traffic}

theorem Keeps.modify (h : traffic.Keeps urls client) (other : Nat) {f : Client → Client}
    (hf : ∀ state : Client, state.InTurn urls → (f state).InTurn urls) :
    Keeps urls client { traffic with clients := traffic.clients.modify other f } := by
  obtain ⟨state, hstate, hturn⟩ := h
  refine ⟨if other = client then f state else state, ?_, ?_⟩
  · rw [List.getElem?_modify, hstate]
    rfl
  · split
    · exact hf state hturn
    · exact hturn

/-- **Every action keeps a client in turn**, whoever acts, and whatever comes of it. -/
theorem keeps_act (h : traffic.Keeps urls client) (action : Action) :
    (traffic.act action).Keeps urls client := by
  cases action with
  | make texts =>
    unfold act
    dsimp only
    split
    · exact h
    · obtain ⟨state, hstate, hturn⟩ := h
      refine ⟨state, ?_, hturn⟩
      rw [List.getElem?_append_left (List.getElem?_eq_some_iff.mp hstate).1]
      exact hstate
  | clone handle => exact h
  | call handle request =>
    unfold act
    dsimp only
    split
    · exact h
    · exact h.modify _ fun _ hturn => hturn.call request
  | answer client call answer => exact h.modify _ fun _ hturn => hturn.answer call answer

/-- Every run keeps a client in turn. -/
theorem keeps_foldl (h : traffic.Keeps urls client) (actions : List Action) :
    (actions.foldl act traffic).Keeps urls client := by
  induction actions generalizing traffic with
  | nil => exact h
  | cons action actions ih => exact ih (keeps_act h action)

/-- A client is in turn when it is made. -/
theorem keeps_make {texts : List String} {made : Api.Frontends}
    (h : Api.Frontends.ofTexts texts = .ok made) (traffic : Traffic) :
    (traffic.act (.make texts)).Keeps made.urls traffic.clients.length := by
  refine ⟨⟨made, []⟩, ?_, rfl, ?_, ?_⟩
  · simp only [act, h]
    exact List.getElem?_concat_length
  · exact Api.Frontends.used_of_ofTexts h
  · intro number call hcall
    cases hcall

end Traffic

/-! ## Requests through a handle and its copies -/

/-- The marks of the handles after an action: the handle of another client has none, and a copy has the mark
of the handle that it is a copy of. -/
def marksAfter (marks : List Bool) : Action → List Bool
  | .make texts => match Api.Frontends.ofTexts texts with
    | .error _ => marks
    | .ok _ => marks ++ [false]
  | .clone handle => marks ++ marks[handle]?.toList
  | .call _ _ | .answer _ _ _ => marks

/-- The request that an action makes through a marked handle, if it makes one. -/
def requestThrough? (marks : List Bool) : Action → Option Api.Request
  | .call handle request => if marks[handle]? = some true then some request else none
  | .make _ | .clone _ | .answer _ _ _ => none

/-- The requests that actions make, one after another, through marked handles and copies of them. -/
def requestsThrough : List Bool → List Action → List Api.Request
  | _, [] => []
  | marks, action :: actions =>
    (requestThrough? marks action).toList ++ requestsThrough (marksAfter marks action) actions

theorem Client.requests_answer (client : Client) (number : Nat) (answer : WireReply) :
    (client.answer number answer).calls.map Flight.request = client.calls.map Flight.request := by
  refine List.ext_getElem? fun n => ?_
  have hsame (call : Flight) : (call.answered answer).request = call.request := by
    unfold Flight.answered
    split <;> rfl
  rw [Client.answer, List.getElem?_map, List.getElem?_map, List.getElem?_modify, Option.map_eq_map,
    Option.map_map]
  refine congrArg (Option.map · _) (funext fun call => ?_)
  rw [Function.comp_apply]
  split
  · exact hsame call
  · rfl

namespace Traffic

/-- The marked handles are those of the client, and these are the requests of its calls. -/
structure Tallies (client : Nat) (marks : List Bool) (made : List Api.Request) (traffic : Traffic) :
    Prop where
  marks_eq : traffic.handles.map (· == client) = marks
  calls : ∃ state, traffic.clients[client]? = some state ∧ state.calls.map Flight.request = made

variable {client : Nat} {marks : List Bool} {made : List Api.Request} {traffic : Traffic}

/-- A handle is marked if it is the client's. -/
theorem Tallies.marked_iff (h : traffic.Tallies client marks made) (handle : Nat) :
    marks[handle]? = some true ↔ traffic.handles[handle]? = some client := by
  rw [← h.marks_eq, List.getElem?_map, Option.map_eq_some_iff]
  constructor
  · rintro ⟨other, hother, heq⟩
    rw [hother, beq_iff_eq.mp heq]
  · intro hhandle
    exact ⟨client, hhandle, beq_self_eq_true client⟩

/-- **One action**: it is a call of the client if it goes through a marked handle. -/
theorem tallies_act (h : traffic.Tallies client marks made) (action : Action) :
    (traffic.act action).Tallies client (marksAfter marks action)
      (made ++ (requestThrough? marks action).toList) := by
  obtain ⟨state, hstate, hmade⟩ := h.calls
  cases action with
  | make texts =>
    simp only [act, marksAfter, requestThrough?, Option.toList_none, List.append_nil]
    cases Api.Frontends.ofTexts texts with
    | error error => exact h
    | ok frontends =>
      have hclient : client < traffic.clients.length := (List.getElem?_eq_some_iff.mp hstate).1
      refine ⟨?_, state, ?_, hmade⟩
      · rw [List.map_append, h.marks_eq, List.map_singleton, beq_false_of_ne (Nat.ne_of_gt hclient)]
      · rw [List.getElem?_append_left hclient]
        exact hstate
  | clone handle =>
    simp only [requestThrough?, Option.toList_none, List.append_nil]
    refine ⟨?_, state, hstate, hmade⟩
    rw [act, marksAfter, List.map_append, ← h.marks_eq, List.getElem?_map]
    cases traffic.handles[handle]? <;> rfl
  | call handle request =>
    simp only [act, marksAfter, requestThrough?, h.marked_iff]
    cases hhandle : traffic.handles[handle]? with
    | none => simpa using h
    | some other =>
      refine ⟨h.marks_eq, if other = client then state.call request else state, ?_, ?_⟩
      · rw [List.getElem?_modify, hstate]
        split <;> rfl
      · simp only [Option.some.injEq]
        split
        · rw [Client.call, List.map_append, hmade]
          rfl
        · rw [hmade, Option.toList_none, List.append_nil]
  | answer other number answer =>
    simp only [act, marksAfter, requestThrough?, Option.toList_none, List.append_nil]
    refine ⟨h.marks_eq, if other = client then state.answer number answer else state, ?_, ?_⟩
    · rw [List.getElem?_modify, hstate]
      split <;> rfl
    · split
      · rw [Client.requests_answer, hmade]
      · exact hmade

/-- **A run**: the calls of the client are the requests through marked handles, in order. -/
theorem tallies_foldl (h : traffic.Tallies client marks made) (actions : List Action) :
    ∃ marks', (actions.foldl act traffic).Tallies client marks' (made ++ requestsThrough marks actions) := by
  induction actions generalizing traffic marks made with
  | nil => exact ⟨marks, by simpa [requestsThrough] using h⟩
  | cons action actions ih =>
    obtain ⟨marks', htallies⟩ := ih (tallies_act h action)
    rw [List.append_assoc] at htallies
    exact ⟨marks', htallies⟩

/-- Every handle is of a client that was made. -/
def Held (traffic : Traffic) : Prop :=
  ∀ client ∈ traffic.handles, client < traffic.clients.length

theorem held_act (h : traffic.Held) (action : Action) : (traffic.act action).Held := by
  cases action with
  | make texts =>
    unfold act
    dsimp only
    split
    · exact h
    · refine List.forall_mem_append.mpr ⟨fun client hclient => ?_, List.forall_mem_singleton.mpr ?_⟩ <;>
        rw [List.length_append, List.length_singleton]
      · exact Nat.lt_succ_of_lt (h client hclient)
      · exact Nat.lt_succ_self _
  | clone handle =>
    refine List.forall_mem_append.mpr ⟨h, fun client hclient => ?_⟩
    exact h client (List.mem_of_getElem? (Option.mem_toList.mp hclient))
  | call handle request =>
    unfold act
    dsimp only
    split
    · exact h
    · rw [Held, List.length_modify]
      exact h
  | answer client number answer =>
    rw [act, Held, List.length_modify]
    exact h

theorem held_after (actions : List Action) : (after actions).Held := by
  refine List.foldlRecOn actions act (List.forall_mem_nil _) fun traffic h action _ => ?_
  exact held_act h action

/-- A client that is made has made no call, and its handle alone is marked. -/
theorem tallies_make {texts : List String} {frontends : Api.Frontends}
    (h : Api.Frontends.ofTexts texts = .ok frontends) (held : traffic.Held) :
    (traffic.act (.make texts)).Tallies traffic.clients.length
      (List.replicate traffic.handles.length false ++ [true]) [] := by
  simp only [act, h]
  refine ⟨?_, ⟨frontends, []⟩, List.getElem?_concat_length, rfl⟩
  rw [List.map_append, List.map_singleton, beq_self_eq_true, List.map_eq_replicate_iff.mpr]
  exact fun client hclient => beq_false_of_ne (Nat.ne_of_lt (held client hclient))

end Traffic

/-! ## Fair rotation -/

/-- Calls use frontends in rotation, and each call is tried once at its frontend. So each round of as
many calls as there are frontends, wherever it begins, uses every place once, and no place is used more
often than another but for one call. -/
structure RotatesFairly (urls : List String) (calls : List Flight) : Prop where
  turn : ∀ k (call : Flight), calls[k]? = some call →
    call.place = k % urls.length ∧ urls[k % urls.length]? = some call.base
  once : ∀ call ∈ calls,
    Tried (call.base ++ call.request.endpoint.path) call.request call.exchanges call.rest
  inRange : ∀ call ∈ calls, call.place < urls.length
  round : ∀ k, k + urls.length ≤ calls.length →
    (((calls.drop k).take urls.length).map Flight.place).Perm (List.range urls.length)
  even : ∀ i j, i < urls.length → j < urls.length →
    (calls.map Flight.place).count i ≤ (calls.map Flight.place).count j + 1

/-- As many numbers in a row as there are remainders have each remainder once. -/
theorem perm_range_of_consecutive (k n : Nat) : ((List.range' k n).map (· % n)).Perm (List.range n) := by
  have hmod := Nat.multiset_Ico_map_mod k n
  have hrange : Multiset.Ico k (k + n) = (List.range' k n : Multiset Nat) := by
    rw [Multiset.Ico, Nat.Ico_eq_range', Nat.add_sub_cancel_left]
  rw [hrange, Multiset.map_coe] at hmod
  exact Multiset.coe_eq_coe.mp hmod

/-- How often a remainder comes up. -/
theorem count_mod_range {n j : Nat} (hj : j < n) (total : Nat) :
    ((List.range total).map (· % n)).count j = total / n + if j < total % n then 1 else 0 := by
  have hcount : ((List.range total).map (· % n)).count j = total.count (· ≡ j [MOD n]) := by
    induction total with
    | zero => rfl
    | succ total ih =>
      rw [List.range_succ, List.map_append, List.count_append, ih, Nat.count_succ, List.map_singleton,
        List.count_singleton]
      simp only [Nat.ModEq, Nat.mod_eq_of_lt hj, beq_iff_eq]
  rw [hcount, Nat.count_modEq_card _ (Nat.zero_lt_of_lt hj), Nat.mod_eq_of_lt hj]

namespace Client.InTurn

variable {urls : List String} {client : Client}

/-- While 64 bits count the calls, they have the places whose turn it is. -/
theorem place_of_few (h : client.InTurn urls) (hfew : client.calls.length < UInt64.size) {k : Nat}
    {call : Flight} (hcall : client.calls[k]? = some call) : call.place = k % urls.length := by
  have hk : k < client.calls.length := (List.getElem?_eq_some_iff.mp hcall).1
  rw [(h.each k call hcall).place, UInt64.toNat_ofNat_of_lt' (hk.trans hfew)]

theorem map_place (h : client.InTurn urls) (hfew : client.calls.length < UInt64.size) :
    client.calls.map Flight.place = (List.range client.calls.length).map (· % urls.length) := by
  refine List.ext_getElem (by simp) fun k hk _ => ?_
  rw [List.length_map] at hk
  rw [List.getElem_map, List.getElem_map, List.getElem_range]
  exact h.place_of_few hfew (List.getElem?_eq_getElem hk)

/-- **Calls in turn rotate fairly.** -/
theorem rotatesFairly (h : client.InTurn urls) (hurls : urls ≠ [])
    (hfew : client.calls.length < UInt64.size) : RotatesFairly urls client.calls where
  turn k call hcall := by
    have hplace := h.place_of_few hfew hcall
    exact ⟨hplace, hplace ▸ (h.each k call hcall).base⟩
  once call hcall := by
    obtain ⟨k, hk⟩ := List.getElem?_of_mem hcall
    exact tried_of_reached (h.each k call hk).reached
  inRange call hcall := by
    obtain ⟨k, hk⟩ := List.getElem?_of_mem hcall
    rw [h.place_of_few hfew hk]
    exact Nat.mod_lt _ (List.length_pos_iff.mpr hurls)
  round k hround := by
    have hnumbers : ((List.range client.calls.length).drop k).take urls.length =
        List.range' k urls.length :=
      List.ext_getElem (by simp only [List.length_take, List.length_drop, List.length_range,
        List.length_range']; omega) fun i _ _ => by simp
    rw [List.map_take, List.map_drop, h.map_place hfew, ← List.map_drop, ← List.map_take, hnumbers]
    exact perm_range_of_consecutive k urls.length
  even i j hi hj := by
    rw [h.map_place hfew, count_mod_range hi, count_mod_range hj]
    split <;> omega

end Client.InTurn

/-- **Calls rotate fairly over the frontends.** A call goes out to the next frontend and advances the
counter, whatever carries it and whatever comes of it. And when a client is made from texts that keep
frontends, whatever happened before it and whatever happens after it — copies of its handle, calls
through all of these, answers in any order and of any kind, other clients — its calls are the requests
made through its handle and the copies of it, in order, and they rotate fairly, while 64 bits count
them. -/
theorem calls_rotate_fairly :
    (∀ (m : Type → Type) [Monad m] (wire : Wire m) (request : Api.Request)
      (frontends : Api.Frontends), send wire request frontends = do
        return (← (Flight.start frontends request).rest.run wire, frontends.next.2)) ∧
    ∀ (texts : List String) (made : Api.Frontends), Api.Frontends.ofTexts texts = .ok made →
      ∀ before later : List Action, ∃ client,
        (Traffic.after (before ++ .make texts :: later)).clients[(Traffic.after before).clients.length]?
          = some client ∧
        client.calls.map Flight.request =
          requestsThrough (List.replicate (Traffic.after before).handles.length false ++ [true]) later ∧
        (client.calls.length < UInt64.size → RotatesFairly made.urls client.calls) := by
  refine ⟨fun m _ wire request frontends => ?sent, fun texts made hmade before later => ?turns⟩
  case sent =>
    rw [Flight.start, run_deliver]
    rfl
  case turns =>
    obtain ⟨client, hclient, hturn⟩ :=
      Traffic.keeps_foldl (Traffic.keeps_make hmade (Traffic.after before)) later
    obtain ⟨_, -, state, hstate, hrequests⟩ :=
      Traffic.tallies_foldl (Traffic.tallies_make hmade (Traffic.held_after before)) later
    obtain rfl := Option.some.inj (hclient.symm.trans hstate)
    refine ⟨client, ?_, hrequests, hturn.rotatesFairly made.urls_ne_nil⟩
    rw [Traffic.after, List.foldl_append]
    exact hclient

/-- Two frontends are made after another client. Two holders of the second client call through it, one
of them before and one after the connection of the first call is refused. A call through the handle of the
other client is not counted. -/
theorem two_holders_rotate :
    ∃ client, (Traffic.after [.make ["http://c"], .make ["http://a/", " ", "http://b"], .clone 1,
        .call 2 ⟨.listJobs, none⟩, .call 0 ⟨.listTasks, none⟩, .call 1 ⟨.getTask ⟨"t"⟩, none⟩,
        .answer 1 0 .closed, .call 2 ⟨.listJobs, none⟩]).clients[1]? = some client ∧
      client.calls.map Flight.request =
        [⟨.listJobs, none⟩, ⟨.getTask ⟨"t"⟩, none⟩, ⟨.listJobs, none⟩] ∧
      client.calls.map Flight.base = ["http://a", "http://b", "http://a"] ∧
      RotatesFairly ["http://a", "http://b"] client.calls := by
  obtain ⟨client, hclient, hrequests, hfair⟩ := calls_rotate_fairly.2 ["http://a/", " ", "http://b"]
    ⟨["http://a", "http://b"], 0, by decide⟩ (by rfl) [.make ["http://c"]] [.clone 1,
        .call 2 ⟨.listJobs, none⟩, .call 0 ⟨.listTasks, none⟩, .call 1 ⟨.getTask ⟨"t"⟩, none⟩,
        .answer 1 0 .closed, .call 2 ⟨.listJobs, none⟩]
  have hbases : client.calls.map Flight.base = ["http://a", "http://b", "http://a"] := by
    cases hclient
    rfl
  refine ⟨client, hclient, hrequests, hbases, hfair ?_⟩
  have hlength := congrArg List.length hbases
  rw [List.length_map] at hlength
  rw [hlength]
  decide

end Http

end BuildBrowser

import BuildBrowser.Api.Script
import BuildBrowser.Proofs.Endpoint
import BuildBrowser.Proofs.Members
import Mathlib.Data.List.Infix

/-!
# Scripted replies are given in turn

A scripted server keeps a queue of replies for each call, gives the first of them, and keeps the last
one for good. Seen from outside, by what was done to the server, the replies to a call are **numbered**
in the order in which they were pushed, and each request is answered by the number whose turn it is
(`Server.turn`). A request passes the turn on if a later reply is there by then, and keeps it otherwise.

The bridge from queues to numbers is one invariant: the queue of a call is a suffix of the replies
pushed for it, and not an empty one (`queue_suffix`). So the turn is read off two lengths, and
`turn_concat` says how each action moves it. Everything else is an induction over what was done.

Queues are kept under request lines. That calls do not get into each other's queues is the injectivity
of request lines, and is used in `queue_act` alone.

A server that is held by several clients is one server, so what is done through any of them is one list
of actions.
-/

namespace BuildBrowser

/-! ## Queues -/

namespace Script

variable {ρ : Type}

/-- The replies that wait under a key. -/
def queue (key : String) (script : Script ρ) : List ρ :=
  (Members.find? key script).getD []

/-- A queue after its first reply has been given. The last reply stays. -/
def afterOne : List ρ → List ρ
  | _ :: next :: rest => next :: rest
  | queue => queue

theorem queue_push (key other : String) (reply : ρ) (script : Script ρ) :
    queue other (push key reply script) =
      if key = other then queue other script ++ [reply] else queue other script := by
  unfold queue push
  rw [Members.find?_insert]
  by_cases h : key = other
  · subst h
    simp only [if_true, Option.getD_some]
  · simp only [if_neg h]

theorem take_fst (key : String) (script : Script ρ) :
    (take key script).1 = (queue key script).head? := by
  unfold take queue
  rcases Members.find? key script with _ | _ | ⟨reply, _ | ⟨next, rest⟩⟩ <;> rfl

theorem queue_take (key other : String) (script : Script ρ) :
    queue other (take key script).2 =
      if key = other then afterOne (queue other script) else queue other script := by
  by_cases h : key = other
  · subst h
    rw [if_pos rfl]
    unfold take queue
    rcases hfound : Members.find? key script with _ | _ | ⟨reply, _ | ⟨next, rest⟩⟩
    · simp only [hfound, Option.getD_none, afterOne]
    · simp only [hfound, Option.getD_some, afterOne]
    · simp only [hfound, Option.getD_some, afterOne]
    · simp only [Members.find?_insert, if_true, Option.getD_some, afterOne]
  · rw [if_neg h]
    unfold take queue
    rcases Members.find? key script with _ | _ | ⟨reply, _ | ⟨next, rest⟩⟩
    · rfl
    · rfl
    · rfl
    · simp only [Members.find?_insert, if_neg h]

theorem length_afterOne (queue : List ρ) :
    (afterOne queue).length = if 1 < queue.length then queue.length - 1 else queue.length := by
  rcases queue with _ | ⟨reply, _ | ⟨next, rest⟩⟩ <;> simp [afterOne]

theorem afterOne_suffix (queue : List ρ) : afterOne queue <:+ queue := by
  rcases queue with _ | ⟨reply, _ | ⟨next, rest⟩⟩
  · exact List.suffix_refl _
  · exact List.suffix_refl _
  · exact List.suffix_cons _ _

theorem afterOne_eq_nil {queue : List ρ} : afterOne queue = [] ↔ queue = [] := by
  rcases queue with _ | ⟨reply, _ | ⟨next, rest⟩⟩ <;> simp [afterOne]

end Script

namespace Api

/-! ## What is done to a server -/

namespace Server

/-- One thing that is done to a scripted server. -/
inductive Action where
  | push (endpoint : Endpoint) (reply : Reply)
  | send (request : Request)
  | clear

/-- The server after an action. -/
def act (server : Server) : Action → Server
  | .push endpoint reply => server.push endpoint reply
  | .send request => (server.send request).2
  | .clear => server.clear

/-- The server after actions, one after another, on a new one. -/
def after (actions : List Action) : Server :=
  actions.foldl act empty

/-- What a client is given for a request. -/
def outcome (server : Server) (request : Request) : Except Error Bytes :=
  (server.send request).1.toExcept request.endpoint

/-- The replies that actions push for a call, in order. -/
def pushed (endpoint : Endpoint) (actions : List Action) : List Reply :=
  actions.filterMap fun
    | .push other reply => if other = endpoint then some reply else none
    | _ => none

/-- The requests that actions send, in order. -/
def sent (actions : List Action) : List Request :=
  actions.filterMap fun
    | .send request => some request
    | _ => none

/-- The requests for a call that actions send, in order. -/
def sentTo (endpoint : Endpoint) (actions : List Action) : List Request :=
  (sent actions).filter (·.endpoint = endpoint)

/-- The replies to a call that a server has in its queue. -/
def queue (endpoint : Endpoint) (server : Server) : List Reply :=
  Script.queue endpoint.requestLine server.replies

/-- The number of the reply whose turn it is: it follows the replies that have left the queue. -/
def turn (endpoint : Endpoint) (actions : List Action) : Nat :=
  (pushed endpoint actions).length - (queue endpoint (after actions)).length + 1

theorem after_concat (actions : List Action) (action : Action) :
    after (actions ++ [action]) = (after actions).act action := by
  rw [after, List.foldl_append]
  rfl

theorem pushed_append (endpoint : Endpoint) (actions more : List Action) :
    pushed endpoint (actions ++ more) = pushed endpoint actions ++ pushed endpoint more :=
  List.filterMap_append

/-- An action pushes for a call, or leaves what was pushed for it. -/
theorem pushed_concat (endpoint : Endpoint) (actions : List Action) (action : Action) :
    pushed endpoint (actions ++ [action]) =
      match action with
      | .push other reply =>
        if other = endpoint then pushed endpoint actions ++ [reply] else pushed endpoint actions
      | _ => pushed endpoint actions := by
  rw [pushed_append]
  cases action with
  | push other reply =>
    by_cases h : other = endpoint <;> simp [pushed, h]
  | send request => exact List.append_nil _
  | clear => exact List.append_nil _

/-- An action is a request for a call, or leaves those that were sent. -/
theorem sentTo_concat (endpoint : Endpoint) (actions : List Action) (action : Action) :
    sentTo endpoint (actions ++ [action]) =
      match action with
      | .send request =>
        if request.endpoint = endpoint then sentTo endpoint actions ++ [request]
        else sentTo endpoint actions
      | _ => sentTo endpoint actions := by
  rw [sentTo, sent, List.filterMap_append, List.filter_append, ← sent, ← sentTo]
  cases action with
  | send request =>
    by_cases h : request.endpoint = endpoint <;> simp [h]
  | push other reply => exact List.append_nil _
  | clear => exact List.append_nil _

/-- **What an action does to the queue of a call**: a push for the call adds to it, a request for the
call takes from it, and nothing else changes it. -/
theorem queue_act (endpoint : Endpoint) (server : Server) (action : Action) :
    queue endpoint (server.act action) =
      match action with
      | .push other reply =>
        if other = endpoint then queue endpoint server ++ [reply] else queue endpoint server
      | .send request =>
        if request.endpoint = endpoint then Script.afterOne (queue endpoint server)
        else queue endpoint server
      | .clear => queue endpoint server := by
  cases action with
  | push other reply =>
    show Script.queue _ (Script.push _ _ _) = _
    rw [Script.queue_push]
    simp only [Endpoint.requestLine_injective.eq_iff]
    rfl
  | send request =>
    show Script.queue _ (Script.take _ _).2 = _
    rw [Script.queue_take]
    simp only [Endpoint.requestLine_injective.eq_iff]
    rfl
  | clear => rfl

/-- A request is answered by the first reply in the queue, and by code 404 if there is none. -/
theorem send_fst (server : Server) (request : Request) :
    (server.send request).1 = (queue request.endpoint server).head?.getD (.status 404) := by
  show (Script.take _ _).1.getD _ = _
  rw [Script.take_fst]
  rfl

/-! ## The turn -/

/-- **The invariant of queues**: what is in the queue of a call was pushed last, and if anything was
pushed, something is there. -/
theorem queue_suffix (endpoint : Endpoint) (actions : List Action) :
    queue endpoint (after actions) <:+ pushed endpoint actions ∧
      (queue endpoint (after actions) = [] → pushed endpoint actions = []) := by
  induction actions using List.reverseRecOn with
  | nil => exact ⟨List.suffix_refl _, fun _ => rfl⟩
  | append_singleton actions action ih =>
    obtain ⟨hsuffix, hempty⟩ := ih
    rw [after_concat, queue_act, pushed_concat]
    cases action with
    | push other reply =>
      by_cases h : other = endpoint
      · obtain ⟨gone, hgone⟩ := hsuffix
        simp only [if_pos h]
        refine ⟨⟨gone, ?_⟩, fun hnil => absurd hnil (List.concat_ne_nil _ _)⟩
        rw [← List.append_assoc, hgone]
      · simp only [if_neg h]
        exact ⟨hsuffix, hempty⟩
    | send request =>
      by_cases h : request.endpoint = endpoint
      · simp only [if_pos h, Script.afterOne_eq_nil]
        exact ⟨(Script.afterOne_suffix _).trans hsuffix, hempty⟩
      · simp only [if_neg h]
        exact ⟨hsuffix, hempty⟩
    | clear => exact ⟨hsuffix, hempty⟩

/-- **How an action moves the turn**: a request for the call passes it on if a later reply is there,
and nothing else moves it. -/
theorem turn_concat (endpoint : Endpoint) (actions : List Action) (action : Action) :
    turn endpoint (actions ++ [action]) =
      match action with
      | .send request =>
        if request.endpoint = endpoint ∧ turn endpoint actions < (pushed endpoint actions).length then
          turn endpoint actions + 1
        else turn endpoint actions
      | _ => turn endpoint actions := by
  obtain ⟨hsuffix, hempty⟩ := queue_suffix endpoint actions
  have hlength := hsuffix.length_le
  unfold turn
  rw [after_concat, queue_act, pushed_concat]
  cases action with
  | push other reply =>
    by_cases h : other = endpoint
    · simp only [if_pos h, List.length_append, List.length_singleton, Nat.add_sub_add_right]
    · simp only [if_neg h]
  | send request =>
    by_cases h : request.endpoint = endpoint
    · simp only [h, if_true, true_and, Script.length_afterOne]
      have hnone : (queue endpoint (after actions)).length = 0 → (pushed endpoint actions).length = 0 := by
        intro hnil
        rw [hempty (List.length_eq_zero_iff.mp hnil), List.length_nil]
      split <;> split <;> omega
    · simp only [h, if_false, false_and]
  | clear => rfl

/-- The turn stays where it is as long as the call is not asked. -/
theorem turn_append {endpoint : Endpoint} {more : List Action} (h : sentTo endpoint more = [])
    (actions : List Action) : turn endpoint (actions ++ more) = turn endpoint actions := by
  induction more using List.reverseRecOn with
  | nil => rw [List.append_nil]
  | append_singleton more action ih =>
    rw [sentTo_concat] at h
    rw [← List.append_assoc, turn_concat]
    cases action with
    | send request =>
      by_cases hrequest : request.endpoint = endpoint
      · simp only [if_pos hrequest] at h
        exact absurd h (List.concat_ne_nil _ _)
      · simp only [if_neg hrequest] at h
        simp only [hrequest, false_and, if_false]
        exact ih h
    | push other reply => exact ih h
    | clear => exact ih h

/-- It is the turn of the first reply before any is pushed. -/
theorem turn_of_pushed_eq_nil {endpoint : Endpoint} {actions : List Action}
    (h : pushed endpoint actions = []) : turn endpoint actions = 1 := by
  rw [turn, h]
  simp

/-- The reply whose turn it is stands first in the queue. -/
theorem head?_queue (endpoint : Endpoint) (actions : List Action) :
    (queue endpoint (after actions)).head? =
      (pushed endpoint actions)[turn endpoint actions - 1]? := by
  obtain ⟨hsuffix, -⟩ := queue_suffix endpoint actions
  rw [turn, Nat.add_sub_cancel, ← List.head?_drop]
  exact congrArg List.head? (List.suffix_iff_eq_drop.mp hsuffix)

/-- Where anything was pushed, it is the turn of something that was. -/
theorem turn_le {endpoint : Endpoint} {actions : List Action} (h : pushed endpoint actions ≠ []) :
    turn endpoint actions ≤ (pushed endpoint actions).length := by
  obtain ⟨hsuffix, hempty⟩ := queue_suffix endpoint actions
  have hlength := hsuffix.length_le
  have hqueue : 0 < (queue endpoint (after actions)).length :=
    List.length_pos_iff.mpr (mt hempty h)
  unfold turn
  omega

/-- A request that passes the turn on was sent in the turn of each number before it. The induction is
on the actions, from the last one back to the one that passed the number on. -/
theorem exists_send_of_lt_turn {endpoint : Endpoint} {actions : List Action} {k : Nat} (hk : 1 ≤ k)
    (h : k < turn endpoint actions) :
    ∃ before body more, actions = before ++ .send ⟨endpoint, body⟩ :: more ∧
      pushed endpoint before ≠ [] ∧ turn endpoint before = k := by
  induction actions using List.reverseRecOn with
  | nil => exact absurd h (Nat.not_lt.mpr hk)
  | append_singleton actions action ih =>
    by_cases hearlier : k < turn endpoint actions
    · obtain ⟨before, body, more, rfl, hbefore⟩ := ih hearlier
      refine ⟨before, body, more ++ [action], ?_, hbefore⟩
      rw [List.append_assoc, List.cons_append]
    · rw [turn_concat] at h
      cases action with
      | push other reply => exact absurd h hearlier
      | clear => exact absurd h hearlier
      | send request =>
        dsimp only at h
        split at h
        · next hpassed =>
          obtain ⟨rfl, hlater⟩ := hpassed
          refine ⟨actions, request.body, [], rfl, List.length_pos_iff.mp (Nat.zero_lt_of_lt hlater), ?_⟩
          omega
        · exact absurd h hearlier

/-- Of replies that were all pushed before the call was asked, each request takes the next one, up to
the last. -/
theorem turn_append_of_pushed_eq_nil {endpoint : Endpoint} {before more : List Action}
    (hbefore : sentTo endpoint before = []) (hpushed : pushed endpoint before ≠ [])
    (hmore : pushed endpoint more = []) :
    turn endpoint (before ++ more) =
      min ((sentTo endpoint more).length + 1) (pushed endpoint before).length := by
  have hcount : 0 < (pushed endpoint before).length := List.length_pos_iff.mpr hpushed
  induction more using List.reverseRecOn with
  | nil =>
    have hfirst : turn endpoint ([] ++ before) = 1 := by
      rw [turn_append hbefore, turn_of_pushed_eq_nil rfl]
    rw [List.append_nil, ← List.nil_append before, hfirst]
    exact (Nat.min_eq_left hcount).symm
  | append_singleton more action ih =>
    rw [pushed_concat] at hmore
    rw [← List.append_assoc, turn_concat, sentTo_concat, pushed_append]
    cases action with
    | send request =>
      have hmore : pushed endpoint more = [] := hmore
      rw [ih hmore, hmore, List.append_nil]
      by_cases hrequest : request.endpoint = endpoint
      · simp only [hrequest, true_and, if_true, List.length_append, List.length_singleton]
        split <;> omega
      · simp only [hrequest, false_and, if_false]
    | push other reply =>
      by_cases hother : other = endpoint
      · simp only [if_pos hother] at hmore
        exact absurd hmore (List.concat_ne_nil _ _)
      · simp only [if_neg hother] at hmore
        exact ih hmore
    | clear => exact ih hmore

/-! ## In turn -/

/-- **The replies to a call are given in turn**, in the order in which they were pushed: `number` says
which reply a request is answered by that follows some actions, the first one being number 1. -/
structure InTurn (endpoint : Endpoint) (number : List Action → Nat) : Prop where
  /-- Before any reply was pushed for the call, a request for it fails with code 404. -/
  unscripted : ∀ actions body, pushed endpoint actions = [] →
    (after actions).outcome ⟨endpoint, body⟩ = .error (.status endpoint 404)
  /-- After that, a request is answered by the reply with its number of those that were pushed for
  the call. -/
  served : ∀ actions body, pushed endpoint actions ≠ [] → 1 ≤ number actions ∧
    ∃ reply, (pushed endpoint actions)[number actions - 1]? = some reply ∧
      (after actions).outcome ⟨endpoint, body⟩ = reply.toExcept endpoint
  /-- The first request that follows the first push is answered by number 1. -/
  first : ∀ before more, pushed endpoint before = [] → sentTo endpoint more = [] →
    number (before ++ more) = 1
  /-- The next request after that is answered by the next number if a later reply was there when the
  last one was sent, and by the same number otherwise. -/
  next : ∀ before body more, pushed endpoint before ≠ [] → sentTo endpoint more = [] →
    number (before ++ .send ⟨endpoint, body⟩ :: more) =
      if number before < (pushed endpoint before).length then number before + 1 else number before
  /-- So every number before the present one has answered a request. -/
  none_skipped : ∀ actions k, 1 ≤ k → k < number actions → ∃ before body more,
    actions = before ++ .send ⟨endpoint, body⟩ :: more ∧ pushed endpoint before ≠ [] ∧
      number before = k
  /-- The last reply that was pushed stays. -/
  last_kept : ∀ actions,
    (queue endpoint (after actions)).getLast? = (pushed endpoint actions).getLast?
  /-- Of replies that were all pushed first, request number `k` is answered by number `k`, or by the
  last one if there are fewer. -/
  counted : ∀ before more, sentTo endpoint before = [] → pushed endpoint before ≠ [] →
    pushed endpoint more = [] → number (before ++ more) =
      min ((sentTo endpoint more).length + 1) (pushed endpoint before).length

theorem inTurn (endpoint : Endpoint) : InTurn endpoint (turn endpoint) where
  unscripted actions body h := by
    obtain ⟨hsuffix, -⟩ := queue_suffix endpoint actions
    rw [h, List.suffix_nil] at hsuffix
    rw [outcome, send_fst, hsuffix]
    rfl
  served actions body h := by
    have hindex : turn endpoint actions - 1 < (pushed endpoint actions).length := by
      have hle := turn_le h
      have hpos := List.length_pos_iff.mpr h
      omega
    refine ⟨Nat.le_add_left _ _, _, List.getElem?_eq_getElem hindex, ?_⟩
    rw [outcome, send_fst, head?_queue, List.getElem?_eq_getElem hindex]
    rfl
  first before more hbefore hmore := by
    rw [turn_append hmore, turn_of_pushed_eq_nil hbefore]
  next before body more hbefore hmore := by
    rw [List.append_cons, turn_append hmore, turn_concat]
    simp only [true_and]
  none_skipped actions k hk h := exists_send_of_lt_turn hk h
  last_kept actions := by
    obtain ⟨⟨gone, hgone⟩, hempty⟩ := queue_suffix endpoint actions
    by_cases h : queue endpoint (after actions) = []
    · rw [h, hempty h]
    · rw [← hgone, List.getLast?_append_of_ne_nil _ h]
  counted before more hbefore hpushed hmore := turn_append_of_pushed_eq_nil hbefore hpushed hmore

/-! ## Records -/

/-- The body of a request with its call, if it has one. -/
def carried (request : Request) : Option (Endpoint × Bytes) :=
  request.body.map fun body => (request.endpoint, body)

/-- What is recorded is added to what has been, until the records are cleared. -/
theorem records_foldl {actions : List Action} (h : .clear ∉ actions) (server : Server) :
    (actions.foldl act server).calls = server.calls ++ (sent actions).map Request.endpoint ∧
      (actions.foldl act server).bodies = server.bodies ++ (sent actions).filterMap carried := by
  induction actions generalizing server with
  | nil => exact ⟨(List.append_nil _).symm, (List.append_nil _).symm⟩
  | cons action actions ih =>
    obtain ⟨haction, hactions⟩ := not_or.mp (mt List.mem_cons.mpr h)
    obtain ⟨hcalls, hbodies⟩ := ih hactions (server.act action)
    rw [List.foldl_cons, hcalls, hbodies]
    cases action with
    | push other reply => exact ⟨rfl, rfl⟩
    | send request =>
      obtain ⟨endpoint, body⟩ := request
      refine ⟨List.append_assoc _ _ _, ?_⟩
      cases body with
      | none => exact congrArg (· ++ _) (List.append_nil _)
      | some body => exact List.append_assoc _ _ _
    | clear => exact absurd rfl haction

/-- A server has no records when it is new, and when they have just been cleared. -/
theorem records_eq_nil {earlier : List Action}
    (h : earlier = [] ∨ earlier.getLast? = some .clear) :
    (after earlier).calls = [] ∧ (after earlier).bodies = [] := by
  rcases h with rfl | h
  · exact ⟨rfl, rfl⟩
  · obtain ⟨before, rfl⟩ := List.getLast?_eq_some_iff.mp h
    rw [after_concat]
    exact ⟨rfl, rfl⟩

/-- **A scripted server gives the replies to each call in turn, and records what it was sent** since the
records were last cleared: all calls, and the bodies of those that carried one. -/
theorem replies_in_turn :
    (∀ endpoint, InTurn endpoint (turn endpoint)) ∧
    ∀ earlier actions : List Action, (earlier = [] ∨ earlier.getLast? = some .clear) →
      .clear ∉ actions →
      (after (earlier ++ actions)).calls = (sent actions).map Request.endpoint ∧
      (after (earlier ++ actions)).bodies = (sent actions).filterMap carried := by
  refine ⟨inTurn, fun earlier actions hearlier hactions => ?_⟩
  obtain ⟨hcalls, hbodies⟩ := records_eq_nil hearlier
  have hrecords := records_foldl hactions (after earlier)
  rw [hcalls, hbodies] at hrecords
  rw [after, List.foldl_append]
  exact hrecords

/-- A third reply is pushed when the second one has answered and was the last: it answers once more, and
then the third one does. The records, cleared before that, hold the one request that follows. -/
theorem late_reply_in_turn :
    let early : List Action :=
      [.push .listTasks (.status 500), .push .listJobs (.body [1]), .push .listJobs (.status 503),
        .send ⟨.listJobs, none⟩, .send ⟨.listJobs, none⟩, .push .listJobs (.body [3]), .clear]
    let late : List Action := early ++ [.send ⟨.listJobs, some [7]⟩]
    pushed .listJobs late ≠ [] ∧ turn .listJobs early = 2 ∧ turn .listJobs late = 3 ∧
      (after late).outcome ⟨.listJobs, some []⟩ = .ok [3] ∧
      (after late).calls = [.listJobs] ∧ (after late).bodies = [(.listJobs, [7])] := by
  intro early late
  have hpushed : pushed .listJobs late = [.body [1], .status 503, .body [3]] := by decide
  have hearly : turn .listJobs early = 2 := by decide
  have hlate : turn .listJobs late = 3 := by decide
  have hpushed_ne : pushed .listJobs late ≠ [] := by
    rw [hpushed]
    exact List.cons_ne_nil _ _
  obtain ⟨hinTurn, hrecords⟩ := replies_in_turn
  obtain ⟨-, reply, hreply, houtcome⟩ := (hinTurn .listJobs).served late (some []) hpushed_ne
  rw [hpushed, hlate] at hreply
  obtain rfl : Reply.body [3] = reply := Option.some.inj hreply
  have hkept : Action.clear ∉ [Action.send ⟨.listJobs, some [7]⟩] := by
    rw [List.mem_singleton]
    exact nofun
  exact ⟨hpushed_ne, hearly, hlate, houtcome, hrecords early _ (.inr rfl) hkept⟩

end Server

end Api

end BuildBrowser

import BuildBrowser.Http.Exchange

/-!
# Calls under way

A call is delivered by requests and answers, and those of other calls go over the wire between them.
`Flow` is what is left of a computation that uses the wire: it is over, or a request of it is out and
it goes on with whatever comes back. Delivering over the wire that leaves its requests open
(`Flow.wire`) gives the flow of a call, and carrying that flow out over any wire is delivering the
call over it (`run_deliver`).

`Tried` says, in terms of the wire alone, how far a call has come whose address is tried once: its own
request goes out at most once, and once in all if the address can be sent to, and any other request of
it is one that an answer redirected it to (`Sequel`). **However it is answered, a call is tried once**
(`tried_of_reached`). The one fact about redirections that this takes is `exists_next`: an answer is
the last one, or it redirects.
-/

namespace BuildBrowser.Http

/-- What is left of a computation that uses the wire. -/
inductive Flow (α : Type) where
  | done (a : α)
  | ask (request : WireRequest) (next : WireReply → Flow α)

namespace Flow

variable {α β : Type}

/-- A flow, and then another that is given its result. -/
def bind : Flow α → (α → Flow β) → Flow β
  | .done a, f => f a
  | .ask request next, f => .ask request fun answer => bind (next answer) f

instance : Monad Flow where
  pure := .done
  bind := bind

/-- The wire that leaves every request open. -/
def wire : Wire Flow := fun request => .ask request .done

/-- Carries a flow out over a wire. -/
def run {m : Type → Type} [Monad m] (wire : Wire m) : Flow α → m α
  | .done a => pure a
  | .ask request next => do run wire (next (← wire request))

/-- Answers have brought a flow from its start to what is left of it. -/
inductive Reached (start : Flow α) : List (WireRequest × WireReply) → Flow α → Prop
  | start : Reached start [] start
  | answered {exchanges : List (WireRequest × WireReply)} {request : WireRequest}
      {next : WireReply → Flow α} (h : Reached start exchanges (.ask request next))
      (answer : WireReply) : Reached start (exchanges ++ [(request, answer)]) (next answer)

end Flow

/-! ## Carrying a call out -/

section

variable {m : Type → Type} [Monad m] (wire : Wire m)

theorem run_follow (first : Url) (left : Nat) (request : WireRequest) :
    (follow Flow.wire first left request).run wire = follow wire first left request := by
  induction left generalizing request with
  | zero =>
    refine congrArg (wire request >>= ·) (funext fun answer => ?_)
    cases answer with
    | closed => rfl
    | answer status location body complete =>
      dsimp only [Flow.bind]
      cases redirection? request status location <;> rfl
  | succ left ih =>
    refine congrArg (wire request >>= ·) (funext fun answer => ?_)
    cases answer with
    | closed => rfl
    | answer status location body complete =>
      dsimp only [Flow.bind]
      cases redirection? request status location with
      | none => rfl
      | some target =>
        cases target with
        | error text => rfl
        | ok next => exact ih next

/-- **Carrying the flow of a call out is delivering the call.** -/
theorem run_deliver (address : String) (request : Api.Request) :
    (deliver Flow.wire address request).run wire = deliver wire address request := by
  unfold deliver
  cases parse address with
  | invalid => rfl
  | foreign text => rfl
  | url url =>
    dsimp only
    split
    · exact run_follow wire url maxRedirects _
    · rfl

end

/-! ## What a call puts on the wire -/

/-- An answer redirects a request to another one. -/
def Redirects (request : WireRequest) (answer : WireReply) (next : WireRequest) : Prop :=
  ∃ status location body complete, answer = .answer status location body complete ∧
    redirection? request status location = some (.ok next)

/-- The request is what goes out after the exchanges, of which the first was of a stated request and
each redirected the call to the next. -/
inductive Sequel (first : WireRequest) : List (WireRequest × WireReply) → WireRequest → Prop
  | first : Sequel first [] first
  | redirected {exchanges : List (WireRequest × WireReply)} {request next : WireRequest}
      {answer : WireReply} (h : Sequel first exchanges request)
      (hnext : Redirects request answer next) :
      Sequel first (exchanges ++ [(request, answer)]) next

/-- How far a call has come whose address is tried once: it is over at once if its address cannot be
sent to. Otherwise its own request goes out, and what redirections ask for after it; it waits for an
answer to the last of these, or it is over with that answer. -/
inductive Tried (address : String) (request : Api.Request) :
    List (WireRequest × WireReply) → Flow Api.Reply → Prop
  | unsendable {reply : Api.Reply} (h : ∀ url, parse address = .url url → url.isWeb = false) :
      Tried address request [] (.done reply)
  | waiting {url : Url} {exchanges : List (WireRequest × WireReply)} {last : WireRequest}
      {next : WireReply → Flow Api.Reply} (hurl : parse address = .url url)
      (hlast : Sequel (.ofCall url request) exchanges last) :
      Tried address request exchanges (.ask last next)
  | over {url : Url} {exchanges : List (WireRequest × WireReply)} {last : WireRequest}
      {answer : WireReply} {reply : Api.Reply} (hurl : parse address = .url url)
      (hlast : Sequel (.ofCall url request) exchanges last) :
      Tried address request (exchanges ++ [(last, answer)]) (.done reply)

/-- A request goes out, and its answer is the last one or redirects it. -/
theorem exists_next (first : Url) (left : Nat) (request : WireRequest) :
    ∃ next, follow Flow.wire first left request = .ask request next ∧
      ∀ answer, (∃ reply, next answer = .done reply) ∨
        ∃ left following, Redirects request answer following ∧
          next answer = follow Flow.wire first left following := by
  cases left with
  | zero =>
    refine ⟨_, rfl, fun answer => .inl ?_⟩
    cases answer with
    | closed => exact ⟨_, rfl⟩
    | answer status location body complete =>
      dsimp only [Flow.bind]
      cases redirection? request status location <;> exact ⟨_, rfl⟩
  | succ left =>
    refine ⟨_, rfl, fun answer => ?_⟩
    cases answer with
    | closed => exact .inl ⟨_, rfl⟩
    | answer status location body complete =>
      dsimp only [Flow.bind]
      cases htarget : redirection? request status location with
      | none => exact .inl ⟨_, rfl⟩
      | some target =>
        cases target with
        | error text => exact .inl ⟨_, rfl⟩
        | ok following =>
          exact .inr ⟨left, following, ⟨status, location, body, complete, rfl, htarget⟩, rfl⟩

/-- A request that is followed goes on as a sequel of itself, up to its last answer. -/
theorem sequel_of_reached {url : Url} {left : Nat} {request : WireRequest}
    {exchanges : List (WireRequest × WireReply)} {rest : Flow Api.Reply}
    (h : (follow Flow.wire url left request).Reached exchanges rest) :
    (∃ left last, Sequel request exchanges last ∧ rest = follow Flow.wire url left last) ∨
      ∃ before last answer reply, Sequel request before last ∧
        exchanges = before ++ [(last, answer)] ∧ rest = .done reply := by
  induction h with
  | start => exact .inl ⟨left, request, .first, rfl⟩
  | @answered exchanges asked next _ answer ih =>
    obtain ⟨left, last, hlast, heq⟩ | ⟨_, _, _, _, -, -, heq⟩ := ih
    · obtain ⟨further, hfurther, hanswer⟩ := exists_next url left last
      rw [hfurther] at heq
      cases heq
      obtain ⟨reply, hreply⟩ | ⟨left, following, hredirects, hfollowing⟩ := hanswer answer
      · exact .inr ⟨exchanges, asked, answer, reply, hlast, rfl, hreply⟩
      · exact .inl ⟨left, following, hlast.redirected hredirects, hfollowing⟩
    · cases heq

theorem eq_of_reached_done {α : Type} {a : α} {exchanges : List (WireRequest × WireReply)}
    {rest : Flow α} (h : (Flow.done a).Reached exchanges rest) : exchanges = [] ∧ rest = .done a := by
  induction h with
  | start => exact ⟨rfl, rfl⟩
  | answered _ answer ih => cases ih.2

/-- **However it is answered, a call is tried once.** -/
theorem tried_of_reached {address : String} {request : Api.Request}
    {exchanges : List (WireRequest × WireReply)} {rest : Flow Api.Reply}
    (h : (deliver Flow.wire address request).Reached exchanges rest) :
    Tried address request exchanges rest := by
  have unsendable (reply : Api.Reply) (hover : deliver Flow.wire address request = .done reply)
      (haddress : ∀ url, parse address = .url url → url.isWeb = false) :
      Tried address request exchanges rest := by
    rw [hover] at h
    obtain ⟨rfl, rfl⟩ := eq_of_reached_done h
    exact .unsendable haddress
  cases hparse : parse address with
  | invalid =>
    refine unsendable _ (by rw [deliver, hparse]; rfl) fun url hurl => ?_
    rw [hparse] at hurl
    cases hurl
  | foreign text =>
    refine unsendable _ (by rw [deliver, hparse]; rfl) fun url hurl => ?_
    rw [hparse] at hurl
    cases hurl
  | url url =>
    cases hweb : url.isWeb with
    | false =>
      refine unsendable (badUrl url.text) ?_ fun other hother => ?_
      · simp only [deliver, hparse, hweb]
        rfl
      · rw [hparse] at hother
        cases hother
        exact hweb
    | true =>
      have hdeliver : deliver Flow.wire address request =
          follow Flow.wire url maxRedirects (.ofCall url request) := by
        simp only [deliver, hparse, hweb]
        rfl
      rw [hdeliver] at h
      obtain ⟨left, last, hlast, rfl⟩ | ⟨before, last, answer, reply, hlast, rfl, rfl⟩ :=
        sequel_of_reached h
      · obtain ⟨next, hnext, -⟩ := exists_next url left last
        rw [hnext]
        exact .waiting hparse hlast
      · exact .over hparse hlast

end BuildBrowser.Http

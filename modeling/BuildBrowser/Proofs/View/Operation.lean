import BuildBrowser.Proofs.Program.Run
import BuildBrowser.View.BuildState
import BuildBrowser.View.JobBuilds
import BuildBrowser.View.JobList

/-!
# The operations of the views, as questions

One equation for each operation: the request that it makes, and what it makes of the reply. Laws about
views follow from these and never look at the operations again. `Reply.document` is what a call for a
document makes of its reply; a scope depends on no more than that.
-/

namespace BuildBrowser

/-! ## Calls for documents -/

namespace Api

/-- What a call for a document makes of its reply. -/
def Reply.document (α : Type) [Json.Document α] (endpoint : Endpoint) (reply : Reply) :
    Except Error α :=
  (reply.toExcept endpoint).bind (readReply α endpoint)

/-- A call for a part of a document takes it from the document. -/
theorem call_map_eq {α β : Type} [Json.Document α] (endpoint : Endpoint) (part : α → β) :
    (call endpoint none fun body => (readReply α endpoint body).map part) =
      .ask ⟨endpoint, none⟩ fun reply => (reply.document α endpoint).map part := by
  rw [call, Program.ask]
  congr 1
  funext reply
  cases reply <;> rfl

end Api

/-! ## Loading -/

theorem JobListScope.load_eq (scope : JobListScope) :
    scope.load = .ask ⟨.listJobs, none⟩ fun reply =>
      scope.receive ((reply.document JobListing .listJobs).map JobListing.jobs) := by
  rw [load, Api.listJobs, Api.call_map_eq]
  rfl

theorem JobBuildsScope.update_eq (scope : JobBuildsScope) :
    scope.update = .ask ⟨.listBuilds scope.job, none⟩ fun reply =>
      scope.receive (reply.document BuildListing (.listBuilds scope.job)) :=
  rfl

theorem BuildStateScope.load_eq (scope : BuildStateScope) :
    scope.load = .ask ⟨.getBuild scope.job scope.build, none⟩ fun reply =>
      scope.receive
        ((reply.document BuildReport (.getBuild scope.job scope.build)).map BuildReport.state) := by
  rw [load, Api.getBuild, Api.call_map_eq]
  rfl

/-! ## Triggering -/

/-- The number that a receipt names, if the bytes are a receipt. -/
def receiptNumber? (content : Bytes) : Option BuildNumber :=
  (Json.read TriggerReceipt content).toOption.map TriggerReceipt.build

namespace JobBuildsScope

variable {scope after : JobBuildsScope} {outcome : TriggerOutcome} {events : List Event}

/-- A trigger that is accepted is followed by an update. -/
theorem trigger_eq (scope : JobBuildsScope) :
    scope.trigger = .send ⟨.triggerBuild scope.job, none⟩ fun
      | .body content => do return (.accepted (receiptNumber? content), ← scope.update)
      | .status _ | .failure _ => return (.failed, scope) := by
  rw [trigger, Api.triggerBuild, Api.call, send_bind]
  congr 1
  funext reply
  cases reply <;> rfl

/-- **A trigger**: the server accepts it by a body, whatever that is, and one listing is asked for, or
it does not and nothing more is asked. -/
theorem run_trigger :
    Run scope.trigger events (outcome, after) ↔
      (∃ content refresh,
        events = [.sent ⟨.triggerBuild scope.job, none⟩ (.body content),
          .sent ⟨.listBuilds scope.job, none⟩ refresh] ∧
        outcome = .accepted (receiptNumber? content) ∧
        after = scope.receive (refresh.document BuildListing (.listBuilds scope.job))) ∨
      (∃ refusal, (∀ content, refusal ≠ .body content) ∧
        events = [.sent ⟨.triggerBuild scope.job, none⟩ refusal] ∧
        outcome = .failed ∧ after = scope) := by
  rw [trigger_eq, run_send]
  constructor
  · rintro ⟨reply, rest, rfl, goesOn⟩
    cases reply with
    | body content =>
      obtain ⟨_, updated, hresult⟩ := run_bind_pure.mp goesOn
      obtain ⟨refresh, rfl, rfl⟩ := run_ask.mp updated
      obtain ⟨rfl, rfl⟩ := Prod.mk.inj hresult
      exact .inl ⟨content, refresh, rfl, rfl, rfl⟩
    | status code =>
      obtain ⟨rfl, hresult⟩ := run_pure.mp goesOn
      obtain ⟨rfl, rfl⟩ := Prod.mk.inj hresult
      exact .inr ⟨.status code, fun _ => Api.Reply.noConfusion, rfl, rfl, rfl⟩
    | failure message =>
      obtain ⟨rfl, hresult⟩ := run_pure.mp goesOn
      obtain ⟨rfl, rfl⟩ := Prod.mk.inj hresult
      exact .inr ⟨.failure message, fun _ => Api.Reply.noConfusion, rfl, rfl, rfl⟩
  · rintro (⟨content, refresh, rfl, rfl, rfl⟩ | ⟨refusal, hrefusal, rfl, rfl, rfl⟩)
    · exact ⟨.body content, _, rfl, run_bind_pure.mpr ⟨_, run_ask.mpr ⟨refresh, rfl, rfl⟩, rfl⟩⟩
    · cases refusal with
      | body content => exact absurd rfl (hrefusal content)
      | status code => exact ⟨.status code, [], rfl, .done _⟩
      | failure message => exact ⟨.failure message, [], rfl, .done _⟩

end JobBuildsScope

end BuildBrowser

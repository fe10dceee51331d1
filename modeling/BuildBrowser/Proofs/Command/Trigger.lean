import BuildBrowser.Command.View
import BuildBrowser.Proofs.Command.Call
import BuildBrowser.Proofs.Render.Fits
import BuildBrowser.Proofs.View.Operation

/-!
# Triggers — the requests of one, and what its receipt can change

A trigger is one call to start a build. The server accepts it by any body at all, and then the listing
is asked for once; otherwise nothing more is asked. **Noninterference**: two runs whose replies agree
but for the bytes of receipts make the same requests, end in the same scope and write the same output.
Only the notice is told what the receipt says.

The proof follows the two runs side by side. Each request is the same in both because it depends on
earlier replies through the scope and through whether the trigger was accepted, and neither looks at
the receipt.
-/

namespace BuildBrowser

/-! ## Runs that are answered alike -/

/-- Two replies to a request agree, or are two receipts of a trigger. -/
def Api.Reply.AlikeFor (request : Api.Request) (reply₁ reply₂ : Api.Reply) : Prop :=
  reply₁ = reply₂ ∨ ∃ job content₁ content₂, request.endpoint = .triggerBuild job ∧
    reply₁ = .body content₁ ∧ reply₂ = .body content₂

/-- Two runs are answered alike but for receipts: where both make the same request in the same place,
the replies agree, or are two receipts. -/
def AlikeButReceipts (events₁ events₂ : List Event) : Prop :=
  ∀ (n : Nat) (request : Api.Request) (reply₁ reply₂ : Api.Reply),
    events₁[n]? = some (.sent request reply₁) → events₂[n]? = some (.sent request reply₂) →
      reply₁.AlikeFor request reply₂

/-- Only a trigger has receipts. -/
theorem Api.Reply.AlikeFor.eq {request : Api.Request} {reply₁ reply₂ : Api.Reply}
    (h : reply₁.AlikeFor request reply₂) (hrequest : ∀ job, request.endpoint ≠ .triggerBuild job) :
    reply₁ = reply₂ := by
  obtain heq | ⟨job, _, _, hjob, _, _⟩ := h
  · exact heq
  · exact absurd hjob (hrequest job)

namespace AlikeButReceipts

variable {request : Api.Request} {reply₁ reply₂ : Api.Reply} {events₁ events₂ : List Event}

theorem head (h : AlikeButReceipts (.sent request reply₁ :: events₁) (.sent request reply₂ :: events₂)) :
    reply₁.AlikeFor request reply₂ :=
  h 0 request reply₁ reply₂ rfl rfl

theorem of_append {more₁ more₂ : List Event}
    (h : AlikeButReceipts (events₁ ++ more₁) (events₂ ++ more₂)) : AlikeButReceipts events₁ events₂ := by
  intro n request reply₁ reply₂ h₁ h₂
  exact h n request reply₁ reply₂ (List.getElem?_append_left (List.getElem?_eq_some_iff.mp h₁).1 ▸ h₁)
    (List.getElem?_append_left (List.getElem?_eq_some_iff.mp h₂).1 ▸ h₂)

theorem tail {event₁ event₂ : Event} (h : AlikeButReceipts (event₁ :: events₁) (event₂ :: events₂)) :
    AlikeButReceipts events₁ events₂ :=
  fun n => h (n + 1)

end AlikeButReceipts

/-! ## The view -/

namespace JobBuildsScope

theorem job_receive (scope : JobBuildsScope) (outcome : Except Api.Error BuildListing) :
    (scope.receive outcome).job = scope.job := by
  cases outcome <;> rfl

/-- **Two triggers that are answered alike but for receipts** ask the same and leave the same scope. -/
theorem trigger_alike {scope after₁ after₂ : JobBuildsScope} {events₁ events₂ : List Event}
    {outcome₁ outcome₂ : TriggerOutcome} (run₁ : Run scope.trigger events₁ (outcome₁, after₁))
    (run₂ : Run scope.trigger events₂ (outcome₂, after₂))
    (alike : AlikeButReceipts events₁ events₂) :
    requests events₁ = requests events₂ ∧ after₁ = after₂ ∧
      (outcome₁ = .failed ↔ outcome₂ = .failed) := by
  obtain ⟨content₁, refresh₁, rfl, rfl, rfl⟩ | ⟨refusal₁, hrefusal₁, rfl, rfl, rfl⟩ :=
    run_trigger.mp run₁
  · obtain ⟨content₂, refresh₂, rfl, rfl, rfl⟩ | ⟨refusal₂, hrefusal₂, rfl, rfl, rfl⟩ :=
      run_trigger.mp run₂
    · have hrefresh : refresh₁ = refresh₂ := alike.tail.head.eq fun _ => Endpoint.noConfusion
      rw [hrefresh]
      exact ⟨rfl, rfl, TriggerOutcome.noConfusion, TriggerOutcome.noConfusion⟩
    · obtain heq | ⟨_, _, content₂, _, _, heq⟩ := alike.head
      · exact absurd heq.symm (hrefusal₂ content₁)
      · exact absurd heq (hrefusal₂ content₂)
  · obtain ⟨content₂, refresh₂, rfl, rfl, rfl⟩ | ⟨refusal₂, hrefusal₂, rfl, rfl, rfl⟩ :=
      run_trigger.mp run₂
    · obtain heq | ⟨_, content₁, _, _, heq, _⟩ := alike.head
      · exact absurd heq (hrefusal₁ content₂)
      · exact absurd heq (hrefusal₁ content₁)
    · exact ⟨rfl, rfl, Iff.rfl⟩

/-- A trigger writes nothing of its own. -/
theorem questions_trigger {scope after : JobBuildsScope} {outcome : TriggerOutcome} {events : List Event}
    (run : Run scope.trigger events (outcome, after)) : questions events = events := by
  obtain ⟨_, _, rfl, -, -⟩ | ⟨_, -, rfl, -, -⟩ := run_trigger.mp run <;> rfl

end JobBuildsScope

/-! ## The command -/

namespace Command

variable {p : Presentation} {job : JobId} {events : List Event} {ending : Ending}

/-- The command is an update of the view, a trigger from whatever scope that gave, and then what is told
and shown of it. It always succeeds. -/
theorem run_trigger :
    Run (trigger p job) events ending ↔
      ∃ first rest outcome after, events = .sent ⟨.listBuilds job, none⟩ first :: (rest ++
          [.wrote (.notice (triggerNotice outcome)),
            .wrote (.output (utf8 (Scope.render p.colour p.format (.jobBuilds after)).text))]) ∧
        Run ((JobBuildsScope.start job).receive
          (first.document BuildListing (.listBuilds job))).trigger rest (outcome, after) ∧
        ending = .success := by
  have hending (after : JobBuildsScope) :
      Command.ending (Scope.render p.colour p.format (.jobBuilds after)) = .success :=
    ending_eq_success_iff.mpr ((Scope.complete_render _ _ _).mpr (.inr trivial))
  rw [trigger, run_bind]
  constructor
  · rintro ⟨before, rest, scope, rfl, opened, goesOn⟩
    obtain ⟨first, rfl, rfl⟩ := run_ask.mp opened
    obtain ⟨rest, said, ⟨outcome, after⟩, rfl, triggered, told⟩ := run_bind.mp goesOn
    obtain ⟨shown, rfl, printed⟩ := run_write.mp told
    obtain ⟨rfl, rfl⟩ := run_print.mp printed
    exact ⟨first, rest, outcome, after, rfl, triggered, hending after⟩
  · rintro ⟨first, rest, outcome, after, rfl, triggered, rfl⟩
    refine ⟨[_], _, _, rfl, run_ask.mpr ⟨first, rfl, rfl⟩,
      run_bind.mpr ⟨rest, _, (outcome, after), rfl, triggered, run_write.mpr ⟨_, rfl, ?_⟩⟩⟩
    exact run_print.mpr ⟨rfl, (hending after).symm⟩

/-- **The questions of the command**: a listing, a trigger, and another listing if it was accepted. -/
theorem trigger_questions {asked : List Event} :
    (∃ events ending, Run (trigger p job) events ending ∧ questions events = asked) ↔
      (∃ first content refresh,
        asked = [.sent ⟨.listBuilds job, none⟩ first,
          .sent ⟨.triggerBuild job, none⟩ (.body content),
          .sent ⟨.listBuilds job, none⟩ refresh]) ∨
      (∃ first refusal, (∀ content, refusal ≠ .body content) ∧
        asked = [.sent ⟨.listBuilds job, none⟩ first,
          .sent ⟨.triggerBuild job, none⟩ refusal]) := by
  constructor
  · rintro ⟨events, ending, run, rfl⟩
    obtain ⟨first, rest, outcome, after, rfl, triggered, -⟩ := run_trigger.mp run
    obtain ⟨content, refresh, rfl, -, -⟩ | ⟨refusal, hrefusal, rfl, -, -⟩ :=
      JobBuildsScope.run_trigger.mp triggered
    · rw [JobBuildsScope.job_receive]
      exact .inl ⟨first, content, refresh, rfl⟩
    · rw [JobBuildsScope.job_receive]
      exact .inr ⟨first, refusal, hrefusal, rfl⟩
  · -- the scope after the first listing decides nothing but the text of the output
    have hrun {first : Api.Reply} {rest : List Event} (hrest : ∀ scope : JobBuildsScope,
        scope.job = job → ∃ outcome after, Run scope.trigger rest (outcome, after)) :
        ∃ events ending, Run (trigger p job) events ending ∧
          questions events = .sent ⟨.listBuilds job, none⟩ first :: rest := by
      obtain ⟨outcome, after, triggered⟩ := hrest ((JobBuildsScope.start job).receive
        (first.document BuildListing (.listBuilds job))) (JobBuildsScope.job_receive _ _)
      refine ⟨_, _, run_trigger.mpr ⟨first, rest, outcome, after, rfl, triggered, rfl⟩, ?_⟩
      rw [questions_sent, questions_append, JobBuildsScope.questions_trigger triggered]
      exact congrArg (_ :: ·) (List.append_nil rest)
    rintro (⟨first, content, refresh, rfl⟩ | ⟨first, refusal, hrefusal, rfl⟩)
    · refine hrun fun scope hjob => ?_
      rw [← hjob]
      exact ⟨_, _, JobBuildsScope.run_trigger.mpr (.inl ⟨content, refresh, rfl, rfl, rfl⟩)⟩
    · refine hrun fun scope hjob => ?_
      rw [← hjob]
      exact ⟨_, _, JobBuildsScope.run_trigger.mpr (.inr ⟨refusal, hrefusal, rfl, rfl, rfl⟩)⟩

/-- The command succeeds in every run. -/
theorem trigger_success (run : Run (trigger p job) events ending) : ending = .success := by
  obtain ⟨_, _, _, _, _, _, hending⟩ := run_trigger.mp run
  exact hending

/-- **Two commands that are answered alike but for receipts** write the same output. -/
theorem trigger_alike {events₁ events₂ : List Event} {ending₁ ending₂ : Ending}
    (run₁ : Run (trigger p job) events₁ ending₁) (run₂ : Run (trigger p job) events₂ ending₂)
    (alike : AlikeButReceipts events₁ events₂) :
    requests events₁ = requests events₂ ∧ (written events₁).output = (written events₂).output := by
  obtain ⟨first₁, rest₁, outcome₁, after₁, rfl, triggered₁, -⟩ := run_trigger.mp run₁
  obtain ⟨first₂, rest₂, outcome₂, after₂, rfl, triggered₂, -⟩ := run_trigger.mp run₂
  obtain rfl : first₁ = first₂ := alike.head.eq fun _ => Endpoint.noConfusion
  obtain ⟨hrequests, rfl, -⟩ :=
    JobBuildsScope.trigger_alike triggered₁ triggered₂ alike.tail.of_append
  constructor
  · rw [requests_sent, requests_sent, requests_append, requests_append, hrequests]
    rfl
  · rw [written_sent, written_sent,
      written_append_of_questions (JobBuildsScope.questions_trigger triggered₁),
      written_append_of_questions (JobBuildsScope.questions_trigger triggered₂),
      written_notice_output, written_notice_output]

end Command

/-! ## The protocol -/

/-- **A trigger asks once, refreshes once if it was accepted, and hides its receipt.** The first two
parts are of the view, from any scope; the others are of the command, which always succeeds. -/
theorem trigger_protocol :
    (∀ scope events outcome after, Run (JobBuildsScope.trigger scope) events (outcome, after) ↔
      (∃ content refresh,
        events = [.sent ⟨.triggerBuild scope.job, none⟩ (.body content),
          .sent ⟨.listBuilds scope.job, none⟩ refresh] ∧
        outcome = .accepted
          ((Json.read TriggerReceipt content).toOption.map TriggerReceipt.build) ∧
        after = scope.receive (refresh.document BuildListing (.listBuilds scope.job))) ∨
      (∃ refusal, (∀ content, refusal ≠ .body content) ∧
        events = [.sent ⟨.triggerBuild scope.job, none⟩ refusal] ∧
        outcome = .failed ∧ after = scope)) ∧
    (∀ scope events₁ events₂ outcome₁ outcome₂ after₁ after₂,
      Run (JobBuildsScope.trigger scope) events₁ (outcome₁, after₁) →
      Run (JobBuildsScope.trigger scope) events₂ (outcome₂, after₂) →
      AlikeButReceipts events₁ events₂ →
        requests events₁ = requests events₂ ∧ after₁ = after₂ ∧
          (outcome₁ = .failed ↔ outcome₂ = .failed)) ∧
    (∀ p job events ending, Run (Command.trigger p job) events ending → ending = .success) ∧
    (∀ p job asked,
      (∃ events ending, Run (Command.trigger p job) events ending ∧ questions events = asked) ↔
        (∃ first content refresh,
          asked = [.sent ⟨.listBuilds job, none⟩ first,
            .sent ⟨.triggerBuild job, none⟩ (.body content),
            .sent ⟨.listBuilds job, none⟩ refresh]) ∨
        (∃ first refusal, (∀ content, refusal ≠ .body content) ∧
          asked = [.sent ⟨.listBuilds job, none⟩ first,
            .sent ⟨.triggerBuild job, none⟩ refusal])) ∧
    (∀ p job events₁ events₂ ending₁ ending₂,
      Run (Command.trigger p job) events₁ ending₁ →
      Run (Command.trigger p job) events₂ ending₂ →
      AlikeButReceipts events₁ events₂ →
        requests events₁ = requests events₂ ∧
          (written events₁).output = (written events₂).output) := by
  refine ⟨?view, ?views, ?success, ?questions, ?commands⟩
  case view =>
    intro scope events outcome after
    exact JobBuildsScope.run_trigger
  case views =>
    intro scope events₁ events₂ outcome₁ outcome₂ after₁ after₂ run₁ run₂ alike
    exact JobBuildsScope.trigger_alike run₁ run₂ alike
  case success =>
    intro p job events ending run
    exact Command.trigger_success run
  case questions =>
    intro p job asked
    exact Command.trigger_questions
  case commands =>
    intro p job events₁ events₂ ending₁ ending₂ run₁ run₂ alike
    exact Command.trigger_alike run₁ run₂ alike

/-- A receipt that is unreadable and one that is not: one output, and two notices. -/
theorem trigger_notice_differs :
    ∃ events₁ events₂,
      Run (Command.trigger ⟨.off, .json⟩ ⟨"web"⟩) events₁ .success ∧
      Run (Command.trigger ⟨.off, .json⟩ ⟨"web"⟩) events₂ .success ∧
      requests events₁ = requests events₂ ∧
      (written events₁).output = (written events₂).output ∧
      (written events₁).notices = "Success\n" ∧
      (written events₂).notices = "Success, build number 3\n" := by
  have hrun (receipt : Bytes) : Run (Command.trigger ⟨.off, .json⟩ ⟨"web"⟩)
      [.sent ⟨.listBuilds ⟨"web"⟩, none⟩ (.status 500),
        .sent ⟨.triggerBuild ⟨"web"⟩, none⟩ (.body receipt),
        .sent ⟨.listBuilds ⟨"web"⟩, none⟩ (.status 500),
        .wrote (.notice (Command.triggerNotice (.accepted (receiptNumber? receipt)))),
        .wrote (.output (utf8 (Scope.render .off .json (.jobBuilds ⟨⟨"web"⟩, none⟩)).text))]
      .success :=
    Command.run_trigger.mpr ⟨_, [_, _], _, _, rfl,
      JobBuildsScope.run_trigger.mpr (.inl ⟨receipt, .status 500, rfl, rfl, rfl⟩), rfl⟩
  have run₁ := hrun []
  have run₂ := hrun (utf8 "[\"web\",3]")
  obtain ⟨hrequests, houtput⟩ :=
    trigger_protocol.2.2.2.2 _ _ _ _ _ _ run₁ run₂ <| by
      intro n request reply₁ reply₂ h₁ h₂
      rcases n with _ | _ | _ | _ | _ | n
      · cases h₁
        cases h₂
        exact .inl rfl
      · cases h₁
        cases h₂
        exact .inr ⟨_, _, _, rfl, rfl, rfl⟩
      · cases h₁
        cases h₂
        exact .inl rfl
      · cases h₁
      · cases h₁
      · cases h₁
  refine ⟨_, _, run₁, run₂, hrequests, houtput, ?_, ?_⟩ <;> decide

end BuildBrowser

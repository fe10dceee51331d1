import BuildBrowser.Command.Basic
import BuildBrowser.Proofs.Program.Run

/-!
# Commands that make one call

A command that makes a call has the request of the call as its first event, and goes on with what was
read from the reply's body, or ends there (`run_calling`). What it prints is the last that it does
(`run_print`), so nothing is asked for once something has been written.
-/

namespace BuildBrowser

namespace Command

variable {α : Type} {events : List Event} {ending : Ending}

theorem run_put {content : Bytes} :
    Run (put content) events ending ↔ events = [.wrote (.output content)] ∧ ending = .success :=
  run_write_done

/-- Something is printed at the end. -/
theorem run_print {rendering : Rendering} :
    Run (print rendering) events ending ↔
      events = [.wrote (.output (utf8 rendering.text))] ∧ ending = Command.ending rendering :=
  run_write_done

theorem ending_eq_success_iff {rendering : Rendering} :
    Command.ending rendering = .success ↔ rendering.complete = true := by
  unfold Command.ending
  split <;> simp [*]

/-- What comes to its end as a text does in either form. -/
theorem complete_present (format : Format) (value : Json.Value) {text : Rendering}
    (h : text.complete = true) : (present format value text).complete = true := by
  cases format with
  | text => exact h
  | json => rfl

/-- A whole text, or its value, is printed with success. -/
theorem run_print_present {format : Format} {value : Json.Value} {text : String} :
    Run (print (present format value (.whole text))) events ending ↔
      events = [.wrote (.output (utf8 (present format value (.whole text)).text))] ∧ ending = .success := by
  rw [run_print, ending_eq_success_iff.mpr (complete_present format value rfl)]

/-- **One request, and then what its reply gives**, or the end of the command. -/
theorem run_calling {endpoint : Endpoint} {body : Option Bytes} {read : Bytes → Except Api.Error α}
    {next : α → Command} :
    Run (calling (Api.call endpoint body read) next) events ending ↔
      ∃ reply rest, events = .sent ⟨endpoint, body⟩ reply :: rest ∧
        match (reply.toExcept endpoint).bind read with
        | .ok a => Run (next a) rest ending
        | .error error => rest = [] ∧ ending = .failure (.call error) := by
  rw [calling, Api.call, send_bind, run_send]
  refine exists_congr fun reply => exists_congr fun rest => and_congr_right fun _ => ?_
  cases (reply.toExcept endpoint).bind read with
  | ok a => exact Iff.rfl
  | error error => exact run_pure

/-- A call whose reply gives something. -/
theorem run_calling_ok {endpoint : Endpoint} {body : Option Bytes} {read : Bytes → Except Api.Error α}
    {next : α → Command} {reply : Api.Reply} {rest : List Event} {a : α}
    (h : (reply.toExcept endpoint).bind read = .ok a) :
    Run (calling (Api.call endpoint body read) next) (.sent ⟨endpoint, body⟩ reply :: rest) ending ↔
      Run (next a) rest ending := by
  rw [run_calling]
  constructor
  · rintro ⟨_, _, hevents, run⟩
    cases hevents
    rw [h] at run
    exact run
  · intro run
    refine ⟨reply, rest, rfl, ?_⟩
    rw [h]
    exact run

end Command

end BuildBrowser

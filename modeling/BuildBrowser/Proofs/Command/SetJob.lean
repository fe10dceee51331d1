import BuildBrowser.Command.Job
import BuildBrowser.CommandLine.Execution
import BuildBrowser.Proofs.Command.Call
import BuildBrowser.Proofs.Json.Reread
import BuildBrowser.Proofs.Path

/-!
# Sending a configuration

The command that sends the configuration in a file either finds no configuration there, and then sends
nothing and writes nothing (`Unusable`), or makes one request with the object in the file, in which the
name of the job has been written. **Nothing else in the object changes**: a name that was there is
replaced where it stood, whatever its value was, and a new one comes last.

The body of the request is a text, so that is also said of what a server reads from it: the object has
no repeated names, since it was read, and is no deeper than it was, since a name is no deeper than
anything.
-/

namespace BuildBrowser

open Json

/-! ## Files without a configuration -/

/-- A file that no configuration is sent from: it cannot be read, is not text, is not a document, or
is a document of another kind than an object. -/
inductive Unusable : Except FileFault Bytes → Prop
  | unreadable (fault : FileFault) : Unusable (.error fault)
  | notText {bytes : Bytes} (h : Utf8.decode? bytes = none) : Unusable (.ok bytes)
  | notJson {bytes : Bytes} {error : Json.Error} (h : read Value bytes = .error error) :
      Unusable (.ok bytes)
  | notObject {bytes : Bytes} {v : Value} (h : read Value bytes = .ok v) (hv : ∀ m, v ≠ .object m) :
      Unusable (.ok bytes)

/-- A file holds no configuration, for a reason that ends the browser with code 1, or it is the text
of an object. -/
theorem Command.configOfFile_cases (path : String) (content : Except FileFault Bytes) :
    (Unusable content ∧ ∃ error, configOfFile path content = .error error ∧ error.exitCode = 1) ∨
      ¬Unusable content ∧ ∃ bytes m, content = .ok bytes ∧ read Value bytes = .ok (.object m) ∧
        configOfFile path content = .ok m := by
  cases content with
  | error fault => exact .inl ⟨.unreadable fault, _, rfl, rfl⟩
  | ok bytes =>
    by_cases htext : Utf8.decode? bytes = none
    · exact .inl ⟨.notText htext, .notText path, by simp [configOfFile, htext], rfl⟩
    cases hread : read Value bytes with
    | error error =>
      exact .inl ⟨.notJson hread, .notJson path error, by simp [configOfFile, htext, hread], rfl⟩
    | ok v =>
      by_cases hobject : ∃ m, v = .object m
      · obtain ⟨m, rfl⟩ := hobject
        refine .inr ⟨?_, bytes, m, rfl, hread, by simp [configOfFile, htext, hread]⟩
        rintro (_ | hnone | herror | ⟨hother, hv⟩)
        · exact htext hnone
        · cases hread.symm.trans herror
        · cases hread.symm.trans hother
          exact hv m rfl
      · refine .inl ⟨.notObject hread fun m hm => hobject ⟨m, hm⟩, .notObject path, ?_, rfl⟩
        cases v with
        | object m => exact absurd ⟨m, rfl⟩ hobject
        | null | bool _ | number _ | string _ | array _ => simp [configOfFile, htext, hread]

theorem Command.configOfFile_error {path : String} {content : Except FileFault Bytes}
    {error : CommandError} (h : configOfFile path content = .error error) :
    Unusable content ∧ error.exitCode = 1 := by
  obtain ⟨hunusable, _, herror, hcode⟩ | ⟨-, _, _, -, -, hok⟩ := configOfFile_cases path content
  · cases h.symm.trans herror
    exact ⟨hunusable, hcode⟩
  · cases h.symm.trans hok

theorem Command.configOfFile_ok {path : String} {content : Except FileFault Bytes}
    {m : Members Value} (h : configOfFile path content = .ok m) :
    ¬Unusable content ∧ ∃ bytes, content = .ok bytes ∧ read Value bytes = .ok (.object m) := by
  obtain ⟨-, _, herror, -⟩ | ⟨husable, bytes, _, hcontent, hread, hok⟩ :=
    configOfFile_cases path content
  · cases h.symm.trans herror
  · cases h.symm.trans hok
    exact ⟨husable, bytes, hcontent, hread⟩

/-! ## The object that is sent -/

section

variable {bytes : Bytes} {m : Members Value}

/-- An object that was read repeats no name. -/
theorem distinct_of_read (h : read Value bytes = .ok (.object m)) : m.Distinct := by
  obtain ⟨rest, hvalue, -⟩ := decode_ok.mp h
  obtain ⟨_, _, _, -, hmembers⟩ := value_kinds.object.mp hvalue
  exact (keepMember_members hmembers).1

/-- An object that was read is still read back after a text was written to one of its names. -/
theorem read_insert_string (h : read Value bytes = .ok (.object m)) (hint : (Value.object m).Integral)
    (name s : String) :
    read Value (utf8 (Value.object (Members.insert name (.string s) m)).compact) =
      .ok (.object (Members.insert name (.string s) m)) := by
  obtain ⟨rest, hvalue, -⟩ := decode_ok.mp h
  obtain ⟨hdepth, hplain⟩ := depth_and_plain_of_value hvalue
  obtain ⟨hdistinct, hmembers⟩ := hplain hint
  have hplain' : (Value.object (Members.insert name (.string s) m)).Plain := by
    refine ⟨Members.distinct_insert hdistinct _, plainMembers_iff.mpr fun member hmember => ?_⟩
    rcases Members.mem_insert hmember with rfl | hmember
    · exact trivial
    · exact plainMembers_iff.mp hmembers member hmember
  -- a string opens no bracket, so the object is no deeper than it was
  have hdepth' : (Value.object (Members.insert name (.string s) m)).depth ≤ maxDepth := by
    refine Nat.succ_le_succ (membersDepth_le.mpr fun member hmember => ?_)
    rcases Members.mem_insert hmember with rfl | hmember
    · exact Nat.zero_le _
    · exact membersDepth_le.mp (Nat.le_of_succ_le_succ hdepth) member hmember
  rw [utf8_compact]
  exact ReadsBack.read Style.compact_blank hplain'.integral (readsBack_value hplain' hdepth')

end

/-- The last segment of the path is the name of the job. -/
theorem last_segment_path_setJob (job : JobId) :
    ∃ segment, (Text.splitOn '/' (Endpoint.setJob job).path.toList).getLast? = some segment ∧
      Segment.decode (String.ofList segment) = job.text := by
  rw [Endpoint.path, splitOn_absolutePath]
  exact ⟨_, rfl, decode_encode job.text⟩

/-! ## The command -/

namespace Command

variable {p : Presentation} {job : JobId} {path : String} {events : List Event} {ending : Ending}

theorem run_setJob :
    Run (setJob p job path) events ending ↔
      ∃ content, (∃ error, configOfFile path content = .error error ∧
          events = [.loaded path content] ∧ ending = .failure error) ∨
        ∃ m rest, configOfFile path content = .ok m ∧ events = .loaded path content :: rest ∧
          Run (calling (Api.setJob job m) (showStored p)) rest ending := by
  rw [setJob, run_load]
  refine exists_congr fun content => ?_
  cases configOfFile path content with
  | error error =>
    constructor
    · rintro ⟨rest, rfl, run⟩
      obtain ⟨rfl, rfl⟩ := run_pure.mp run
      exact .inl ⟨error, rfl, rfl, rfl⟩
    · rintro (⟨_, ⟨⟩, rfl, rfl⟩ | ⟨_, _, ⟨⟩, -⟩)
      exact ⟨[], rfl, .done _⟩
  | ok m =>
    constructor
    · rintro ⟨rest, rfl, run⟩
      exact .inr ⟨m, rest, rfl, rfl, run⟩
    · rintro (⟨_, ⟨⟩, -⟩ | ⟨_, rest, ⟨⟩, rfl, run⟩)
      exact ⟨rest, rfl, run⟩

/-- After its reply the command writes at most. -/
theorem run_calling_setJob {m : Members Value} {rest : List Event}
    (run : Run (calling (Api.setJob job m) (showStored p)) rest ending) :
    ∃ reply said, rest = .sent ⟨.setJob job,
        some (utf8 (Value.object (Api.namedConfig job m)).compact)⟩ reply :: said ∧
      questions said = [] := by
  obtain ⟨reply, said, rfl, goesOn⟩ := run_calling.mp run
  refine ⟨reply, said, rfl, ?_⟩
  split at goesOn
  · obtain ⟨rfl, -⟩ := run_print.mp goesOn
    rfl
  · obtain ⟨rfl, -⟩ := goesOn
    rfl

end Command

/-- **A configuration is sent as it stands in its file, under the name of its job, or not at all.** -/
theorem set_job_sends_config {p : Presentation} {job : JobId} {path : String} {events : List Event}
    {ending : Ending} (run : Run (Command.setJob p job path) events ending) :
    ∃ content rest, events = .loaded path content :: rest ∧
      (Unusable content →
        rest = [] ∧ (CommandLine.finishOf (written events) ending).code = 1 ∧
          (CommandLine.finishOf (written events) ending).output = []) ∧
      (¬Unusable content → ∃ bytes m named body reply said,
        content = .ok bytes ∧ read Value bytes = .ok (.object m) ∧
        Members.Written "job_id" (.string job.text) m named ∧
        rest = .sent ⟨.setJob job, some body⟩ reply :: said ∧ questions said = [] ∧
        (Endpoint.setJob job).method = .put ∧
        body = utf8 (Value.object named).compact ∧
        ((Value.object m).Integral → read Value body = .ok (.object named)) ∧
        ∃ segment, (Text.splitOn '/' (Endpoint.setJob job).path.toList).getLast? = some segment ∧
          Members.find? "job_id" named =
            some (.string (Segment.decode (String.ofList segment)))) := by
  obtain ⟨content, ⟨error, hconfig, rfl, rfl⟩ | ⟨m, rest, hconfig, rfl, called⟩⟩ :=
    Command.run_setJob.mp run
  · obtain ⟨hunusable, hcode⟩ := Command.configOfFile_error hconfig
    exact ⟨content, [], rfl, fun _ => ⟨rfl, hcode, rfl⟩, fun husable => absurd hunusable husable⟩
  · obtain ⟨husable, bytes, rfl, hread⟩ := Command.configOfFile_ok hconfig
    obtain ⟨reply, said, rfl, hsaid⟩ := Command.run_calling_setJob called
    refine ⟨.ok bytes, _, rfl, fun hunusable => absurd hunusable husable, fun _ => ?_⟩
    obtain ⟨segment, hsegment, hdecode⟩ := last_segment_path_setJob job
    refine ⟨bytes, m, Api.namedConfig job m, _, reply, said, rfl, hread,
      Members.written_insert (distinct_of_read hread) "job_id" _, rfl, hsaid, rfl, rfl,
      fun hint => read_insert_string hread hint "job_id" job.text, segment, hsegment, ?_⟩
    rw [hdecode, Api.namedConfig, Members.find?_insert, if_pos rfl]

/-- A configuration that names another job, in the middle and by a list: what a server reads from the
request names the job of its path. -/
theorem set_job_replaces_name :
    ∃ content body,
      content = utf8 "\x7b\"z\": -1, \"job_id\": [7], \"a\": null\x7d" ∧
      body = utf8 "\x7b\"z\":-1,\"job_id\":\"a/b\",\"a\":null\x7d" ∧
      Run (Command.setJob ⟨.off, .json⟩ ⟨"a/b"⟩ "job.json")
        [.loaded "job.json" (.ok content), .sent ⟨.setJob ⟨"a/b"⟩, some body⟩ (.status 500)]
        (.failure (.call (.status (.setJob ⟨"a/b"⟩) 500))) ∧
      ∃ named, read Value body = .ok (.object named) ∧
        Members.find? "job_id" named = some (.string "a/b") := by
  refine ⟨_, _, rfl, rfl, ?_⟩
  generalize hcontent : utf8 "\x7b\"z\": -1, \"job_id\": [7], \"a\": null\x7d" = content
  generalize hm : [("z", .number (.negSucc 0)), ("job_id", .array [.number (.nat 7)]),
    ("a", Value.null)] = m
  have hread : read Value content = .ok (.object m) := by
    subst hcontent hm
    decide +kernel
  have hconfig : Command.configOfFile "job.json" (.ok content) = .ok m := by
    subst hcontent hm
    decide +kernel
  have hbody : utf8 "\x7b\"z\":-1,\"job_id\":\"a/b\",\"a\":null\x7d" =
      utf8 (Value.object (Api.namedConfig ⟨"a/b"⟩ m)).compact := by
    subst hm
    decide +kernel
  have run : Run (Command.setJob ⟨.off, .json⟩ ⟨"a/b"⟩ "job.json") _ _ :=
    Command.run_setJob.mpr ⟨.ok content, .inr ⟨m, _, hconfig, rfl,
      Command.run_calling.mpr ⟨.status 500, [], rfl, rfl, rfl⟩⟩⟩
  rw [← hbody] at run
  refine ⟨run, ?_⟩
  obtain ⟨_, _, hevents, -, husable⟩ := set_job_sends_config run
  cases hevents
  obtain ⟨_, _, named, _, _, _, hloaded, hobject, -, hsent, -, -, -, hback, segment, hsegment, hname⟩ :=
    husable (Command.configOfFile_ok hconfig).1
  cases hloaded
  cases hsent
  cases hread.symm.trans hobject
  obtain rfl : segment = "a%2Fb".toList :=
    Option.some.inj (hsegment.symm.trans (by decide +kernel))
  refine ⟨named, hback ?_, hname⟩
  subst hm
  exact ⟨rfl, ⟨rfl, trivial⟩, trivial, trivial⟩

end BuildBrowser

import BuildBrowser.Proofs.Api.NormalForm
import BuildBrowser.Proofs.Settings

/-!
# When the settings name no frontend

The list in force is that of the command line, or of the environment, or the default one. A list
without entries stands for the default one, so what can go wrong is a list that has entries, but whose
entries are no frontends. An entry has no blanks at its ends, and a frontend loses the slashes at its
end; so those are the lists whose entries are made of slashes (`NamesNoFrontend`), and
`ofTexts_frontends_eq_error_iff` says that they are what is refused.

What is kept of any other list are its entries without those that are made of slashes, and without the
slashes at their ends (`forall₂_unslashed`). `frontends_of_settings` says both of the entries that the
list in force is written with.
-/

namespace BuildBrowser

namespace Api

theorem frontend_eq_empty_iff {text : String} :
    frontend text = "" ↔ ∀ c ∈ Text.strip Text.isBlank text.toList, c = '/' := by
  rw [frontend, String.ofList_eq_empty_iff, Text.dropEnd_eq_nil_iff]
  simp only [decide_eq_true_eq]

/-- Texts are refused if none of them names a frontend. -/
theorem Frontends.ofTexts_eq_error_iff {texts : List String} {error : Error} :
    ofTexts texts = .error error ↔
      error = .noFrontend ∧ ∀ text ∈ texts, frontend text = "" := by
  have hnone : (texts.map frontend).filter (· ≠ "") = [] ↔ ∀ text ∈ texts, frontend text = "" := by
    simp [List.filter_eq_nil_iff]
  rw [← hnone]
  unfold ofTexts
  dsimp only
  split
  · next hurls =>
    rw [and_iff_left hurls, Except.error.injEq, eq_comm]
  · next hurls =>
    refine iff_of_false (fun h => ?_) fun h => hurls h.2
    cases h

end Api

/-- The list of frontends in force: that of the command line, or of the environment, or the default. -/
def Environment.frontendText (env : Environment) (commandLine : Option String) : String :=
  (commandLine.or env.url).getD defaultUrl

/-- A list of frontends that names none: it has entries, and they are made of slashes. -/
def NamesNoFrontend (raw : String) : Prop :=
  splitFrontends raw ≠ [] ∧ ∀ entry ∈ splitFrontends raw, ∀ c ∈ entry.toList, c = '/'

instance (raw : String) : Decidable (NamesNoFrontend raw) :=
  decidable_of_iff
    (splitFrontends raw ≠ [] ∧ ((splitFrontends raw).all fun entry => entry.toList.all (· = '/')) = true)
    (by simp [NamesNoFrontend])

/-- The entries of a list have no blanks at their ends. -/
theorem strip_of_mem_splitFrontends {raw entry : String} (h : entry ∈ splitFrontends raw) :
    Text.strip Text.isBlank entry.toList = entry.toList := by
  have hstrip := (isEntry_of_mem_splitFrontends h).strip (List.forall_mem_nil _) (List.forall_mem_nil _)
  rwa [List.nil_append, List.append_nil] at hstrip

/-- A list without entries names the default frontend. -/
theorem frontends_eq (env : Environment) (commandLine : Option String) :
    env.frontends commandLine =
      if splitFrontends (env.frontendText commandLine) = [] then [defaultUrl]
      else splitFrontends (env.frontendText commandLine) := by
  have hraw : (commandLine.or env.url).getD defaultUrl = env.frontendText commandLine := rfl
  rw [Environment.frontends, hraw]
  split
  · next hnone => rw [if_pos hnone]
  · next hentries => rw [if_neg hentries]

theorem strip_defaultUrl : Text.strip Text.isBlank defaultUrl.toList = defaultUrl.toList := by decide

/-- The frontends as they are named have no blanks at their ends. -/
theorem strip_of_mem_frontends {env : Environment} {commandLine : Option String} {text : String}
    (h : text ∈ env.frontends commandLine) :
    Text.strip Text.isBlank text.toList = text.toList := by
  rw [frontends_eq] at h
  split at h
  · rw [List.mem_singleton.mp h]
    exact strip_defaultUrl
  · exact strip_of_mem_splitFrontends h

/-- **The settings are refused exactly if their list of frontends names none.** -/
theorem ofTexts_frontends_eq_error_iff {env : Environment} {commandLine : Option String}
    {error : Api.Error} :
    Api.Frontends.ofTexts (env.frontends commandLine) = .error error ↔
      error = .noFrontend ∧ NamesNoFrontend (env.frontendText commandLine) := by
  rw [Api.Frontends.ofTexts_eq_error_iff, NamesNoFrontend, frontends_eq]
  refine and_congr_right fun _ => ?_
  split
  · next hempty =>
    have hdefault : Api.frontend defaultUrl ≠ "" := by decide
    simp [hempty, hdefault]
  · next hentries =>
    rw [and_iff_right hentries]
    refine forall₂_congr fun entry hentry => ?_
    rw [Api.frontend_eq_empty_iff, strip_of_mem_splitFrontends hentry]

/-! ## What is kept -/

/-- A text of slashes only. -/
def OfSlashes (text : String) : Prop :=
  ∀ c ∈ text.toList, c = '/'

instance (text : String) : Decidable (OfSlashes text) :=
  decidable_of_iff (text.toList.all (· = '/') = true) (by simp [OfSlashes])

/-- A text without the slashes at its end. -/
structure Unslashed (text url : String) : Prop where
  written : ∃ slashes, text.toList = url.toList ++ slashes ∧ ∀ c ∈ slashes, c = '/'
  last : ∀ c ∈ url.toList.getLast?, c ≠ '/'

/-- A text without blanks at its ends names itself without the slashes at its end. -/
theorem unslashed_frontend {text : String} (h : Text.strip Text.isBlank text.toList = text.toList) :
    Unslashed text (Api.frontend text) := by
  obtain ⟨slashes, htext, hslashes⟩ := Text.exists_dropEnd (· = '/') text.toList
  rw [Api.frontend, h]
  refine ⟨⟨slashes, ?_, fun c hc => of_decide_eq_true (hslashes c hc)⟩, fun c hc => ?_⟩
  · rw [String.toList_ofList, ← htext]
  · rw [String.toList_ofList] at hc
    exact of_decide_eq_false (Text.of_mem_getLast?_dropEnd (· = '/') text.toList c hc)

/-- Of texts without blanks at their ends, those that are not made of slashes are kept. -/
theorem forall₂_unslashed {texts : List String}
    (h : ∀ text ∈ texts, Text.strip Text.isBlank text.toList = text.toList) :
    List.Forall₂ Unslashed (texts.filter fun text => ¬OfSlashes text)
      ((texts.map Api.frontend).filter (· ≠ "")) := by
  induction texts with
  | nil => exact .nil
  | cons text texts ih =>
    obtain ⟨htext, htexts⟩ := List.forall_mem_cons.mp h
    have hempty : Api.frontend text = "" ↔ OfSlashes text := by
      rw [Api.frontend_eq_empty_iff, htext, OfSlashes]
    rw [List.map_cons, List.filter_cons, List.filter_cons]
    by_cases hslashes : OfSlashes text
    · rw [if_neg (by simpa using hslashes), if_neg (by simpa using hempty.mpr hslashes)]
      exact ih htexts
    · rw [if_pos (by simpa using hslashes), if_pos (by simpa using mt hempty.mp hslashes)]
      exact .cons (unslashed_frontend htext) (ih htexts)

/-- **What the frontends of the settings are.** The list in force has one reading as a list of entries.
The frontends that it names are its entries, or the default one if it has none. They are refused exactly
if there are entries, and all of them are made of slashes; otherwise those that are not made of slashes
are kept, in order, without the slashes at their ends. -/
theorem frontends_of_settings (env : Environment) (commandLine : Option String) :
    ∃ entries, (∀ read, FrontendList (env.frontendText commandLine) read ↔ entries = read) ∧
      env.frontends commandLine = (if entries = [] then [defaultUrl] else entries) ∧
      env.frontends commandLine ≠ [] ∧
      (∀ error, Api.Frontends.ofTexts (env.frontends commandLine) = .error error ↔
        error = .noFrontend ∧ entries ≠ [] ∧ ∀ entry ∈ entries, OfSlashes entry) ∧
      (¬(entries ≠ [] ∧ ∀ entry ∈ entries, OfSlashes entry) →
        ∃ kept, Api.Frontends.ofTexts (env.frontends commandLine) = .ok kept ∧
          List.Forall₂ Unslashed
            ((env.frontends commandLine).filter fun text => ¬OfSlashes text) kept.urls) := by
  refine ⟨splitFrontends (env.frontendText commandLine), fun read => frontendList_iff,
    frontends_eq env commandLine, ?filled, fun error => ofTexts_frontends_eq_error_iff,
    fun hnamed => ?kept⟩
  case filled =>
    rw [frontends_eq]
    split
    · exact List.cons_ne_nil _ _
    · next hentries => exact hentries
  case kept =>
    cases hresult : Api.Frontends.ofTexts (env.frontends commandLine) with
    | error error => exact absurd (ofTexts_frontends_eq_error_iff.mp hresult).2 hnamed
    | ok kept =>
      refine ⟨kept, rfl, ?_⟩
      rw [(Api.Frontends.ofTexts_eq_ok_iff.mp hresult).1]
      exact forall₂_unslashed fun text htext => strip_of_mem_frontends htext

/-- Of two entries, one is made of slashes. -/
theorem frontends_of_two_entries :
    ∃ kept, Api.Frontends.ofTexts (Environment.empty.frontends (some "http://a//, /")) = .ok kept ∧
      List.Forall₂ Unslashed ["http://a//"] kept.urls := by
  obtain ⟨entries, hread, -, -, -, hkept⟩ :=
    frontends_of_settings Environment.empty (some "http://a//, /")
  have hentries : entries = ["http://a//", "/"] :=
    (hread _).mp (frontendList_iff.mpr (by decide))
  have hleft : (Environment.empty.frontends (some "http://a//, /")).filter (fun text => ¬OfSlashes text) =
      ["http://a//"] := by decide
  rw [hentries, hleft] at hkept
  exact hkept (by decide)

end BuildBrowser

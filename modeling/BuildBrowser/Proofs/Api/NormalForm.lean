import BuildBrowser.Api.Frontends
import BuildBrowser.Proofs.Text.Blank

/-!
# The form that frontends are kept in

A configured text loses the blanks at its ends, and then the slashes at its end. `Names` says the same
of the text as a whole: blanks, the frontend, slashes, blanks; and there is one way to read a text so
(`frontend_eq_iff`). The frontends of a list are then those that its texts name, in order, without the
empty ones (`Kept`).

Each of the two is taken off once, so a blank that stands before the last slashes of a text is
uncovered and stays. **The law** is that this is the only thing that can be left to take off: a kept
frontend is not empty, does not start with a blank and does not end in a slash, and it ends in a blank
exactly if its text has one before its last slashes. Frontends made of a list that is kept are the list
again exactly if there is no such text (`kept_again_iff_no_blank_uncovered`).
-/

namespace BuildBrowser.Api

/-- A text names a frontend, which may be empty: it is what stands between blanks, without the slashes
at its end. -/
structure Names (text url : String) : Prop where
  written : ∃ before slashes after,
    text.toList = before ++ url.toList ++ slashes ++ after ∧
      (∀ c ∈ before, Text.isBlank c = true) ∧ (∀ c ∈ slashes, c = '/') ∧
      (∀ c ∈ after, Text.isBlank c = true) ∧
      (slashes = [] → ∀ c ∈ url.toList.getLast?, Text.isBlank c = false)
  first : ∀ c ∈ url.toList.head?, Text.isBlank c = false
  last : ∀ c ∈ url.toList.getLast?, c ≠ '/'

/-- The frontend ends in a blank. -/
def EndsInBlank (url : String) : Prop :=
  ∃ c ∈ url.toList.getLast?, Text.isBlank c = true

/-- The last slashes of a text, which only blanks follow, stand after a blank, and not at its start. -/
def BlankBeforeSlashes (text : String) : Prop :=
  ∃ front blank slashes after,
    text.toList = front ++ blank :: (slashes ++ after) ∧
      (∃ c ∈ front, Text.isBlank c = false) ∧ Text.isBlank blank = true ∧
      slashes ≠ [] ∧ (∀ c ∈ slashes, c = '/') ∧ ∀ c ∈ after, Text.isBlank c = true

theorem isBlank_slash : Text.isBlank '/' = false := by decide

/-! ## One text -/

theorem names_frontend (text : String) : Names text (frontend text) := by
  obtain ⟨before, after, htext, hbefore, hafter⟩ := Text.exists_strip Text.isBlank text.toList
  have hfirst := Text.of_mem_head?_strip Text.isBlank text.toList
  have hlast := Text.of_mem_getLast?_strip Text.isBlank text.toList
  rw [frontend]
  generalize Text.strip Text.isBlank text.toList = core at htext hfirst hlast ⊢
  obtain ⟨slashes, hcore, hslashes⟩ := Text.exists_dropEnd (· = '/') core
  refine ⟨⟨before, slashes, after, ?text, hbefore, fun c hc => of_decide_eq_true (hslashes c hc),
    hafter, ?tight⟩, ?first, ?last⟩
  case text => rw [String.toList_ofList, List.append_assoc before, ← hcore, htext]
  case tight =>
    intro hnone
    rw [String.toList_ofList]
    rwa [hcore, hnone, List.append_nil] at hlast
  case first =>
    intro c hc
    rw [String.toList_ofList] at hc
    obtain ⟨rest, hrest⟩ := List.head?_eq_some_iff.mp hc
    refine hfirst c ?_
    rw [hcore, hrest]
    rfl
  case last =>
    intro c hc
    rw [String.toList_ofList] at hc
    exact of_decide_eq_false (Text.of_mem_getLast?_dropEnd (· = '/') core c hc)

/-- **The frontend that a text names is the only one that it can be read as.** -/
theorem frontend_eq_iff {text url : String} : frontend text = url ↔ Names text url := by
  constructor
  · rintro rfl
    exact names_frontend text
  · intro h
    obtain ⟨before, slashes, after, htext, hbefore, hslashes, hafter, hblank⟩ := h.written
    have hfirst : ∀ c ∈ (url.toList ++ slashes).head?, Text.isBlank c = false := by
      intro c hc
      rw [List.head?_append, Option.mem_def, Option.or_eq_some_iff] at hc
      rcases hc with hc | ⟨-, hc⟩
      · exact h.first c hc
      · rw [hslashes c (List.mem_of_head? hc)]
        exact isBlank_slash
    have hlast : ∀ c ∈ (url.toList ++ slashes).getLast?, Text.isBlank c = false := by
      intro c hc
      rw [List.getLast?_append, Option.mem_def, Option.or_eq_some_iff] at hc
      rcases hc with hc | ⟨hnone, hc⟩
      · rw [hslashes c (List.mem_of_getLast? hc)]
        exact isBlank_slash
      · exact hblank (List.getLast?_eq_none_iff.mp hnone) c hc
    have hstrip : Text.strip Text.isBlank text.toList = url.toList ++ slashes := by
      rw [htext, List.append_assoc before]
      exact Text.strip_append_append hbefore hafter hfirst hlast
    have hkept : Text.dropEnd (· = '/') url.toList = url.toList :=
      List.rdropWhile_eq_self_iff.mpr fun hne hslash =>
        h.last _ (List.getLast?_eq_some_getLast hne) (of_decide_eq_true hslash)
    rw [frontend, hstrip, Text.dropEnd_append fun c hc => decide_eq_true (hslashes c hc), hkept,
      String.ofList_toList]

namespace Names

variable {text url : String}

/-- A blank at the end of a frontend was uncovered: slashes stood after it, and something before. -/
theorem endsInBlank_iff (h : Names text url) : EndsInBlank url ↔ BlankBeforeSlashes text := by
  constructor
  · rintro ⟨blank, hlast, hblank⟩
    obtain ⟨before, slashes, after, htext, -, hslashes, hafter, htight⟩ := h.written
    obtain ⟨front, hfront⟩ := List.getLast?_eq_some_iff.mp hlast
    have hfirst := h.first
    rw [hfront] at htext hfirst
    refine ⟨before ++ front, blank, slashes, after, by simp [htext], ?_, hblank, ?_, hslashes, hafter⟩
    · cases front with
      | nil => exact absurd hblank (Bool.eq_false_iff.mp (hfirst blank rfl))
      | cons c front =>
        exact ⟨c, List.mem_append_right _ List.mem_cons_self, hfirst c rfl⟩
    · rintro rfl
      exact Bool.eq_false_iff.mp (htight rfl blank hlast) hblank
  · rintro ⟨front, blank, slashes, after, htext, ⟨ink, hink, hinkBlank⟩, hblank, hne, hslashes, hafter⟩
    -- what stands in front, without the blanks at its start, is the start of the frontend
    have hfirst := List.head?_dropWhile_not Text.isBlank front
    obtain ⟨c, core, hcore⟩ : ∃ c core, front.dropWhile Text.isBlank = c :: core := by
      refine List.exists_cons_of_ne_nil fun hnil => ?_
      exact Bool.eq_false_iff.mp hinkBlank (List.dropWhile_eq_nil_iff.mp hnil ink hink)
    rw [hcore] at hfirst
    have hnamed : Names text (String.ofList (c :: core ++ [blank])) := by
      refine ⟨⟨front.takeWhile Text.isBlank, slashes, after, ?text, fun c hc => List.mem_takeWhile_imp hc,
        hslashes, hafter, fun hnil => absurd hnil hne⟩, ?first, ?last⟩
      case text =>
        rw [String.toList_ofList, ← hcore, ← List.append_assoc, List.takeWhile_append_dropWhile, htext]
        simp
      case first =>
        rw [String.toList_ofList]
        rintro d ⟨⟩
        exact hfirst
      case last =>
        rw [String.toList_ofList, List.getLast?_concat]
        rintro d ⟨⟩ rfl
        exact Bool.eq_false_iff.mp isBlank_slash hblank
    rw [← frontend_eq_iff.mpr h, frontend_eq_iff.mpr hnamed, EndsInBlank, String.toList_ofList,
      List.getLast?_concat]
    exact ⟨blank, rfl, hblank⟩

/-- A frontend names itself, if nothing is left to take off. -/
theorem self_iff (h : Names text url) : Names url url ↔ ¬EndsInBlank url := by
  constructor
  · rintro hself ⟨c, hlast, hblank⟩
    obtain ⟨before, slashes, after, hurl, -, -, -, htight⟩ := hself.written
    have hnone : slashes = [] := by
      have hlength := congrArg List.length hurl
      simp only [List.length_append] at hlength
      exact List.length_eq_zero_iff.mp (by omega)
    exact Bool.eq_false_iff.mp (htight hnone c hlast) hblank
  · intro hink
    refine ⟨⟨[], [], [], by simp, nofun, nofun, nofun, fun _ c hc => ?_⟩, h.first, h.last⟩
    exact Bool.eq_false_iff.mpr fun hblank => hink ⟨c, hc, hblank⟩

end Names

/-! ## A list of texts -/

/-- The frontends that a list of texts names, in order, without the empty ones. -/
inductive Kept : List String → List String → Prop
  | nil : Kept [] []
  | drop {text : String} {texts urls : List String} (named : Names text "") (rest : Kept texts urls) :
      Kept (text :: texts) urls
  | keep {text url : String} {texts urls : List String} (named : Names text url) (filled : url ≠ "")
      (rest : Kept texts urls) : Kept (text :: texts) (url :: urls)

theorem kept_frontends (texts : List String) :
    Kept texts ((texts.map frontend).filter (· ≠ "")) := by
  induction texts with
  | nil => exact .nil
  | cons text texts ih =>
    rw [List.map_cons, List.filter_cons]
    split
    · next hfilled => exact .keep (names_frontend text) (of_decide_eq_true hfilled) ih
    · next hempty =>
      have hnone : frontend text = "" := by simpa using hempty
      exact .drop (frontend_eq_iff.mp hnone) ih

theorem Frontends.ofTexts_eq_ok_iff {texts : List String} {frontends : Frontends} :
    ofTexts texts = .ok frontends ↔
      frontends.urls = (texts.map frontend).filter (· ≠ "") ∧ frontends.used = 0 := by
  obtain ⟨urls, used, hne⟩ := frontends
  unfold ofTexts
  dsimp only
  split
  · next hnone => exact iff_of_false (fun h => nomatch h) fun h => hne (h.1.trans hnone)
  · simp only [Except.ok.injEq, mk.injEq, eq_comm]

namespace Kept

variable {texts urls : List String}

theorem mem (h : Kept texts urls) {url : String} (hurl : url ∈ urls) :
    ∃ text ∈ texts, Names text url ∧ url ≠ "" := by
  induction h with
  | nil => exact absurd hurl List.not_mem_nil
  | drop _ _ ih =>
    obtain ⟨text, htext, hnamed⟩ := ih hurl
    exact ⟨text, List.mem_cons_of_mem _ htext, hnamed⟩
  | keep named filled _ ih =>
    rcases List.mem_cons.mp hurl with rfl | hurl
    · exact ⟨_, List.mem_cons_self, named, filled⟩
    · obtain ⟨text, htext, hnamed⟩ := ih hurl
      exact ⟨text, List.mem_cons_of_mem _ htext, hnamed⟩

/-- What is kept again of what was kept: all of it, if and only if every frontend names itself. -/
theorem again_iff (h : Kept texts urls) :
    (urls.map frontend).filter (· ≠ "") = urls ↔ ∀ url ∈ urls, Names url url := by
  have hmap : urls.map frontend = urls ↔ ∀ url ∈ urls, frontend url = url := by
    conv_lhs => rhs; rw [← List.map_id urls]
    exact List.map_inj_left
  simp only [← frontend_eq_iff, ← hmap]
  constructor
  · intro hagain
    have hlength : ((urls.map frontend).filter (· ≠ "")).length = (urls.map frontend).length := by
      rw [hagain, List.length_map]
    have hall : (urls.map frontend).filter (· ≠ "") = urls.map frontend :=
      List.filter_sublist.eq_of_length hlength
    exact hall.symm.trans hagain
  · intro hself
    rw [hself]
    refine List.filter_eq_self.mpr fun url hurl => ?_
    obtain ⟨-, -, -, hfilled⟩ := h.mem hurl
    exact decide_eq_true hfilled

/-- Some frontend of a list ends in a blank, if and only if one was uncovered in some text. -/
theorem exists_endsInBlank_iff (h : Kept texts urls) :
    (∃ url ∈ urls, EndsInBlank url) ↔ ∃ text ∈ texts, BlankBeforeSlashes text := by
  induction h with
  | nil => simp
  | drop named _ ih =>
    have hempty : ¬EndsInBlank "" := by simp [EndsInBlank]
    rw [List.exists_mem_cons_iff, ih, ← named.endsInBlank_iff, or_iff_right hempty]
  | keep named _ _ ih =>
    rw [List.exists_mem_cons_iff, List.exists_mem_cons_iff, ih, named.endsInBlank_iff]

end Kept

/-- **Frontends are kept in normal form, but for blanks that stood before the last slashes of a text.**
Those of a list are the ones that its texts name, in order; none is empty, starts with a blank or ends
in a slash, and one ends in a blank exactly if there is a blank before the last slashes of its text. The
list that is kept is kept as it is exactly if there is no such text. -/
theorem kept_again_iff_no_blank_uncovered {texts : List String} {frontends : Frontends}
    (h : Frontends.ofTexts texts = .ok frontends) :
    Kept texts frontends.urls ∧
      (∀ url ∈ frontends.urls, url ≠ "" ∧ (∀ c ∈ url.toList.head?, Text.isBlank c = false) ∧
        ∀ c ∈ url.toList.getLast?, c ≠ '/') ∧
      (∀ text ∈ texts, ∀ url, Names text url → (EndsInBlank url ↔ BlankBeforeSlashes text)) ∧
      (Frontends.ofTexts frontends.urls = .ok frontends ↔ ∀ text ∈ texts, ¬BlankBeforeSlashes text) := by
  obtain ⟨hurls, hused⟩ := Frontends.ofTexts_eq_ok_iff.mp h
  have hkept : Kept texts frontends.urls := hurls ▸ kept_frontends texts
  refine ⟨hkept, fun url hurl => ?normal, fun text _ url hnamed => hnamed.endsInBlank_iff, ?again⟩
  case normal =>
    obtain ⟨text, -, hnamed, hfilled⟩ := hkept.mem hurl
    exact ⟨hfilled, hnamed.first, hnamed.last⟩
  case again =>
    have hself : (∀ url ∈ frontends.urls, Names url url) ↔
        ∀ url ∈ frontends.urls, ¬EndsInBlank url := by
      refine forall₂_congr fun url hurl => ?_
      obtain ⟨text, -, hnamed, -⟩ := hkept.mem hurl
      exact hnamed.self_iff
    have hnone := not_congr hkept.exists_endsInBlank_iff
    push Not at hnone
    rw [Frontends.ofTexts_eq_ok_iff, and_iff_left hused, eq_comm, hkept.again_iff, hself, hnone]

/-- Three texts: one with blanks and slashes that come off, one of slashes, and one with a blank before
its slash. -/
theorem kept_of_three :
    ∃ frontends, Frontends.ofTexts [" http://b// ", "/", "http://a /"] = .ok frontends ∧
      frontends.urls = ["http://b", "http://a "] ∧
      (Frontends.ofTexts frontends.urls = .ok frontends ↔
        ∀ text ∈ [" http://b// ", "/", "http://a /"], ¬BlankBeforeSlashes text) := by
  have hkept : Frontends.ofTexts [" http://b// ", "/", "http://a /"] =
      .ok ⟨["http://b", "http://a "], 0, by decide⟩ :=
    Frontends.ofTexts_eq_ok_iff.mpr ⟨by decide, rfl⟩
  exact ⟨_, hkept, rfl, (kept_again_iff_no_blank_uncovered hkept).2.2.2⟩

/-- A blank before the last slash stays, and would come off at a second pass. -/
theorem blank_uncovered_once :
    ∃ frontends, Frontends.ofTexts ["http://a /"] = .ok frontends ∧
      (∃ url ∈ frontends.urls, EndsInBlank url) ∧
      ∃ again, Frontends.ofTexts frontends.urls = .ok again ∧ again.urls ≠ frontends.urls := by
  refine ⟨⟨["http://a "], 0, by decide⟩, Frontends.ofTexts_eq_ok_iff.mpr ⟨by decide, rfl⟩,
    ⟨_, List.mem_singleton_self _, ' ', by decide, by decide⟩, ⟨["http://a"], 0, by decide⟩,
    Frontends.ofTexts_eq_ok_iff.mpr ⟨by decide, rfl⟩, by decide⟩

end BuildBrowser.Api

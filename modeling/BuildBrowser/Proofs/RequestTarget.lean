import BuildBrowser.Proofs.Endpoint
import BuildBrowser.Route.Table
import BuildBrowser.Text.Blank

/-!
# What a path is made of

The paths of calls and of routes carry names that somebody else chose. Whatever these are, a path is a
**path text**: slashes, letters and digits of ASCII, the nine marks `-_.!~*'()`, and escapes that are
complete. `PathText` is that grammar, said without the encoder. A path text has no blank, no control
character and no mark of a query or a fragment (`PathText.harmless`), so a name can neither end the
line of a request nor add anything to it.

The slashes of a path are those that are put before its segments (`count_slash_absolutePath`); a name
adds none. So their number tells the kind of the call, or the view of the route, and nothing else.
-/

namespace BuildBrowser

/-! ## The grammar -/

/-- A letter or a digit of ASCII, or one of the marks that stand for themselves. -/
def IsPlain (c : Char) : Prop :=
  c.isAlphanum = true ∨ c ∈ ['-', '_', '.', '!', '~', '*', '\x27', '(', ')']

/-- A hexadecimal digit in upper case. -/
def IsUpperHex (c : Char) : Prop :=
  c.isDigit = true ∨ 'A' ≤ c ∧ c ≤ 'F'

instance : DecidablePred IsPlain :=
  fun c => inferInstanceAs (Decidable (c.isAlphanum = true ∨ _))

instance : DecidablePred IsUpperHex :=
  fun c => inferInstanceAs (Decidable (c.isDigit = true ∨ _))

/-- A text of slashes, of plain characters, and of complete escapes. -/
inductive PathText : List Char → Prop
  | nil : PathText []
  | slash {rest : List Char} (h : PathText rest) : PathText ('/' :: rest)
  | plain {c : Char} {rest : List Char} (hc : IsPlain c) (h : PathText rest) : PathText (c :: rest)
  | escape {high low : Char} {rest : List Char} (hhigh : IsUpperHex high) (hlow : IsUpperHex low)
      (h : PathText rest) : PathText ('%' :: high :: low :: rest)

namespace PathText

theorem append {text more : List Char} (h : PathText text) (hmore : PathText more) :
    PathText (text ++ more) := by
  induction h with
  | nil => exact hmore
  | slash _ ih => exact .slash ih
  | plain hc _ ih => exact .plain hc ih
  | escape hhigh hlow _ ih => exact .escape hhigh hlow ih

/-- Texts one after another are a path text if each of them is. -/
theorem flatMap {α : Type} {text : α → List Char} (h : ∀ a, PathText (text a)) (as : List α) :
    PathText (as.flatMap text) := by
  induction as with
  | nil => exact .nil
  | cons a as ih =>
    rw [List.flatMap_cons]
    exact (h a).append ih

end PathText

/-! ## Characters -/

/-- A printable character of ASCII that is no blank, and no mark of a query or a fragment. -/
structure Harmless (c : Char) : Prop where
  printable : 0x20 < c.toNat ∧ c.toNat < 0x7F
  not_blank : Text.isBlank c = false
  not_query : c ≠ '?'
  not_fragment : c ≠ '#'

theorem toNat_lt_of_isPlain {c : Char} (h : IsPlain c) : c.toNat < 0x80 := by
  rcases h with h | h
  · unfold Char.isAlphanum Char.isAlpha Char.isUpper Char.isLower Char.isDigit at h
    simp only [Bool.or_eq_true, Bool.and_eq_true, decide_eq_true_eq, UInt32.le_iff_toNat_le, ge_iff_le] at h
    change ((65 ≤ c.toNat ∧ c.toNat ≤ 90) ∨ (97 ≤ c.toNat ∧ c.toNat ≤ 122)) ∨
      (48 ≤ c.toNat ∧ c.toNat ≤ 57) at h
    omega
  · have hmarks : ∀ d ∈ ['-', '_', '.', '!', '~', '*', '\x27', '(', ')'], d.toNat < 0x80 := by simp
    exact hmarks c h

/-- ASCII is small enough to look at all of it. -/
theorem harmless_of_isPlain {c : Char} (h : IsPlain c) : Harmless c := by
  have hascii : ∀ n < 0x80, IsPlain (Char.ofNat n) → (0x20 < n ∧ n < 0x7F) ∧
      Text.isBlank (Char.ofNat n) = false ∧ Char.ofNat n ≠ '?' ∧ Char.ofNat n ≠ '#' := by
    decide
  have hc := hascii c.toNat (toNat_lt_of_isPlain h)
  rw [Char.ofNat_toNat] at hc
  obtain ⟨hprintable, hblank, hquery, hfragment⟩ := hc h
  exact ⟨hprintable, hblank, hquery, hfragment⟩

theorem isPlain_of_isUpperHex {c : Char} (h : IsUpperHex c) : IsPlain c := by
  rcases h with h | ⟨hlow, hhigh⟩
  · exact .inl (Bool.or_eq_true_iff.mpr (.inr h))
  · have hlow : 65 ≤ c.toNat := hlow
    have hhigh : c.toNat ≤ 70 := hhigh
    refine .inl ?_
    have hletters : ∀ n < 71, 65 ≤ n → (Char.ofNat n).isAlphanum = true := by decide
    have hc := hletters c.toNat (Nat.lt_succ_of_le hhigh) hlow
    rwa [Char.ofNat_toNat] at hc

/-- **Every character of a path text is harmless.** -/
theorem PathText.harmless {text : List Char} (h : PathText text) : ∀ c ∈ text, Harmless c := by
  have hslash : Harmless '/' := ⟨by decide, by decide, by decide, by decide⟩
  have hpercent : Harmless '%' := ⟨by decide, by decide, by decide, by decide⟩
  induction h with
  | nil => exact fun _ hc => nomatch hc
  | slash _ ih => exact List.forall_mem_cons.mpr ⟨hslash, ih⟩
  | plain hc _ ih => exact List.forall_mem_cons.mpr ⟨harmless_of_isPlain hc, ih⟩
  | @escape high low rest hhigh hlow _ ih =>
    have hdigit {c : Char} (hc : IsUpperHex c) : Harmless c :=
      harmless_of_isPlain (isPlain_of_isUpperHex hc)
    intro c hc
    rcases List.mem_cons.mp hc with rfl | hc
    · exact hpercent
    rcases List.mem_cons.mp hc with rfl | hc
    · exact hdigit hhigh
    rcases List.mem_cons.mp hc with rfl | hc
    · exact hdigit hlow
    · exact ih c hc

/-! ## Encoded paths -/

namespace Segment

theorem isPlain_of_isBare {c : Char} (h : isBare c = true) : IsPlain c := by
  have hascii : ∀ n < 0x80, isBare (Char.ofNat n) = true → IsPlain (Char.ofNat n) := by decide
  have hc := hascii c.toNat (toNat_lt_of_isBare h)
  rw [Char.ofNat_toNat] at hc
  exact hc h

theorem isUpperHex_hexDigit : ∀ n < 16, IsUpperHex (hexDigit n) := by decide

/-- A byte is written as a plain character or as one complete escape. -/
theorem pathText_encodeByte (b : UInt8) : PathText (encodeByte b) := by
  have hb : b.toNat < 256 := b.toNat_lt
  unfold encodeByte
  dsimp only
  split
  · next hbare => exact .plain (isPlain_of_isBare hbare) .nil
  · exact .escape (isUpperHex_hexDigit _ (by omega)) (isUpperHex_hexDigit _ (by omega)) .nil

end Segment

/-- A path of segments is a path text, whatever the segments are. -/
theorem pathText_absolutePath (segments : List String) :
    PathText (absolutePath segments).toList := by
  rw [absolutePath, String.toList_ofList]
  apply PathText.flatMap
  intro s
  exact .slash (PathText.flatMap Segment.pathText_encodeByte (Utf8.encode s.toList))

/-- A path has one slash for each of its segments. -/
theorem count_slash_absolutePath (segments : List String) :
    (absolutePath segments).toList.count '/' = segments.length := by
  have hsegment (s : String) : (Segment.encodeChars s.toList).count '/' = 0 :=
    List.count_eq_zero.mpr (Segment.not_mem_encodeChars (by decide) (by decide) _)
  rw [absolutePath, String.toList_ofList]
  induction segments with
  | nil => rfl
  | cons s segments ih =>
    rw [List.flatMap_cons, List.count_append, List.count_cons_self, hsegment, ih, List.length_cons,
      Nat.zero_add, Nat.add_comm]

/-! ## Calls and routes -/

/-- A path in a directory that nothing gets out of: it starts with the directory, is a path text, and
has no character by which it could be taken for more than a path. -/
structure Contained (directory : String) (path : String) : Prop where
  starts : directory.toList <+: path.toList
  text : PathText path.toList
  harmless : ∀ c ∈ path.toList, Harmless c

theorem contained_absolutePath {directory : String} {segments : List String}
    (h : directory.toList <+: (absolutePath segments).toList) :
    Contained directory (absolutePath segments) :=
  ⟨h, pathText_absolutePath segments, (pathText_absolutePath segments).harmless⟩

/-- The first segments of a path are its start. -/
theorem absolutePath_isPrefix (first more : List String) :
    (absolutePath first).toList <+: (absolutePath (first ++ more)).toList := by
  rw [absolutePath_append, String.toList_append]
  exact List.prefix_append _ _

theorem Endpoint.contained_path (e : Endpoint) : Contained "/distci/" e.path := by
  have hdirectory : "/distci/".toList = (absolutePath ["distci"]).toList ++ ['/'] := by decide
  obtain ⟨next, more, hsegments⟩ : ∃ next more, e.segments = ["distci"] ++ next :: more := by
    cases e <;> exact ⟨_, _, rfl⟩
  apply contained_absolutePath
  rw [hsegments, absolutePath_append, String.toList_append, hdirectory, List.prefix_append_right_inj]
  show ['/'] <+: (absolutePath (next :: more)).toList
  rw [absolutePath, String.toList_ofList, List.flatMap_cons, List.cons_append]
  exact List.prefix_append ['/'] _

theorem Route.contained_path (r : Route) : Contained "/jobs" r.path := by
  have hdirectory : "/jobs".toList = (absolutePath ["jobs"]).toList := by decide
  obtain ⟨more, hsegments⟩ : ∃ more, r.segments = ["jobs"] ++ more := by
    cases r <;> exact ⟨_, rfl⟩
  apply contained_absolutePath
  rw [hsegments, hdirectory]
  exact absolutePath_isPrefix ["jobs"] more

/-- The number of slashes in the paths of a view. -/
def View.slashes : View → Nat
  | .jobList => 1
  | .jobBuilds => 2
  | .buildState => 4

/-- **No name gets out of its place in a path.** The path of every call and of every route is a path
text in its directory, and has as many slashes as its kind or its view tells. -/
theorem names_stay_in_path :
    (∀ e : Endpoint, Contained "/distci/" e.path ∧
      e.path.toList.count '/' + 1 = e.kind.places.length) ∧
    ∀ r : Route, Contained "/jobs" r.path ∧ r.path.toList.count '/' = r.view.slashes := by
  refine ⟨fun e => ⟨e.contained_path, ?_⟩, fun r => ⟨r.contained_path, ?_⟩⟩
  · rw [Endpoint.path, count_slash_absolutePath]
    exact e.segments_stand.length_eq.symm
  · rw [Route.path, count_slash_absolutePath]
    cases r <;> rfl

end BuildBrowser

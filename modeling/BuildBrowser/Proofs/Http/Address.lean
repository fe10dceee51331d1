import BuildBrowser.Http.Exchange
import BuildBrowser.Proofs.Endpoint
import BuildBrowser.Proofs.Http.DotSegments
import BuildBrowser.Proofs.Text.Blank
import Mathlib.Data.List.TakeDrop

/-!
# Addresses — where the request of a call goes

A call is sent to the text of a frontend with the path of its endpoint behind it. `parse_append` reads
such a text: the scheme and the host are those of the frontend, and the segments of the path stand
after those of the frontend's directory, with dot segments resolved. A text is read by cutting it at
marks, and `cut_eq_iff` is all that is used of a cut.

An identifier that is `.` or `..` is a dot segment of the path, although it is encoded, and resolving
takes it away. `address_keeps_segments` says that these are the only identifiers for which a request
does not go to the path of its endpoint.
-/

namespace BuildBrowser.Http

/-! ## Cutting -/

theorem cut_cons (p : Char → Bool) (c : Char) (text : List Char) :
    cut p (c :: text) =
      if p c then ([], c :: text) else (c :: (cut p text).1, (cut p text).2) := by
  simp only [cut, List.span_eq_takeWhile_dropWhile]
  cases hc : p c <;> simp [hc]

/-- **A cut**: the text before it has no mark, and what is left of the text starts with one. -/
theorem cut_eq_iff {p : Char → Bool} {text before after : List Char} :
    cut p text = (before, after) ↔
      text = before ++ after ∧ (∀ c ∈ before, p c = false) ∧ ∀ c ∈ after.head?, p c = true := by
  induction text generalizing before with
  | nil =>
    constructor
    · intro h
      obtain ⟨rfl, rfl⟩ := Prod.mk.inj h
      exact ⟨rfl, List.forall_mem_nil _, by simp⟩
    · rintro ⟨h, -, -⟩
      obtain ⟨rfl, rfl⟩ := List.append_eq_nil_iff.mp h.symm
      rfl
  | cons c text ih =>
    rw [cut_cons]
    constructor
    · intro h
      split at h
      · next hc =>
        obtain ⟨rfl, rfl⟩ := Prod.mk.inj h
        exact ⟨rfl, List.forall_mem_nil _, by simpa using hc⟩
      · next hc =>
        obtain ⟨rfl, hafter⟩ := Prod.mk.inj h
        obtain ⟨htext, hbefore, hmark⟩ := ih.mp (Prod.ext rfl hafter)
        refine ⟨congrArg (c :: ·) htext, ?_, hmark⟩
        exact List.forall_mem_cons.mpr ⟨eq_false_of_ne_true hc, hbefore⟩
    · rintro ⟨htext, hbefore, hmark⟩
      cases before with
      | nil =>
        rw [List.nil_append] at htext
        have hc : p c = true := hmark c (by simp [← htext])
        rw [if_pos hc, htext]
      | cons d before =>
        obtain ⟨rfl, rfl⟩ := List.cons.inj htext
        obtain ⟨hc, hbefore⟩ := List.forall_mem_cons.mp hbefore
        rw [if_neg (by simp [hc]), ih.mpr ⟨rfl, hbefore, hmark⟩]

/-- A text without a mark is not cut. -/
theorem cut_of_unmarked {p : Char → Bool} {text : List Char} (h : ∀ c ∈ text, p c = false) :
    cut p text = (text, []) :=
  cut_eq_iff.mpr ⟨(List.append_nil text).symm, h, by simp⟩

/-- A cut stays where it is when more text follows, if there is a mark at it then. -/
theorem cut_append {p : Char → Bool} {text before after : List Char} (h : cut p text = (before, after))
    {more : List Char} (hmark : ∀ c ∈ (after ++ more).head?, p c = true) :
    cut p (text ++ more) = (before, after ++ more) := by
  obtain ⟨rfl, hbefore, -⟩ := cut_eq_iff.mp h
  exact cut_eq_iff.mpr ⟨List.append_assoc before after more, hbefore, hmark⟩

/-! ## Texts of paths -/

/-- A text that a URL can have before its query: no blanks, no controls, and no mark of a query or a
fragment. -/
def Plain (text : List Char) : Prop :=
  ∀ c ∈ text, 0x20 < c.toNat ∧ c ≠ '?' ∧ c ≠ '#'

theorem tidy_of_plain {text : List Char} (h : Plain text) : tidy text = text := by
  rw [tidy, Text.strip_of_forall fun c hc => by simpa using (h c hc).1, List.filter_eq_self]
  intro c hc
  have hc := (h c hc).1
  have hne {d : Char} (hd : d.toNat ≤ 0x20) : c ≠ d := by
    rintro rfl
    omega
  simp [hne (d := '\t') (by decide), hne (d := '\n') (by decide), hne (d := '\r') (by decide)]

theorem splitPath_append (text more : List Char) :
    splitPath (text ++ '/' :: more) = splitPath text ++ splitPath more := by
  simp only [splitPath, List.map_append, List.map_cons, Text.splitOn_eq]
  exact List.splitOn_append_cons_self ..

/-- The path of a URL without a query: the segments after its first slash. -/
theorem withPath_of_plain (url : Url) {text : List Char} (h : Plain text) :
    ∃ path, withPath url text = { url with path, query := none, fragment := none } ∧
      ∀ c rest, text = c :: rest → path = pathOf (splitPath rest) := by
  have hcut : cut (fun c => decide (c = '?') || decide (c = '#')) text = (text, []) :=
    cut_of_unmarked fun c hc => by simp [h c hc]
  simp only [withPath, hcut]
  cases text with
  | nil => exact ⟨_, rfl, by simp⟩
  | cons c rest =>
    refine ⟨_, rfl, fun d rest' hcons => ?_⟩
    obtain ⟨-, rfl⟩ := List.cons.inj hcons
    rfl

/-! ## Reading a longer text -/

/-- A scheme is read up to a colon, whatever follows the text. -/
theorem splitScheme?_append {text rest : List Char} {scheme : String}
    (h : splitScheme? text = some (scheme, rest)) :
    rest <:+ text ∧ ∀ more, splitScheme? (text ++ more) = some (scheme, rest ++ more) := by
  obtain ⟨name, after, hcut⟩ : ∃ name after, cut (fun c => decide (c = ':')) text = (name, after) :=
    ⟨_, _, rfl⟩
  simp only [splitScheme?, hcut] at h
  split at h
  · next c name colon after =>
    split at h
    · next hname =>
      obtain ⟨rfl, rfl⟩ := Prod.mk.inj (Option.some.inj h)
      obtain ⟨hsplit, -, hcolon⟩ := cut_eq_iff.mp hcut
      refine ⟨⟨c :: name ++ [colon], ?_⟩, fun more => ?_⟩
      · rw [hsplit, List.append_assoc, List.singleton_append]
      · have hmark : ∀ x ∈ (colon :: after ++ more).head?, decide (x = ':') = true := hcolon
        simp only [splitScheme?, cut_append hcut hmark]
        exact if_pos hname
    · cases h
  · cases h

/-- The end of an authority. -/
def endsAuthority (c : Char) : Bool :=
  isSlash c || c = '?' || c = '#'

/-- What is read after the slashes: an authority up to its end, and the rest. -/
theorem parseAfterSlashes_ok {scheme : String} {text : List Char} {u : Url} :
    parseAfterSlashes scheme text = .url u ↔
      ∃ host port, parseAuthority? scheme (cut endsAuthority text).1 = some (host, port) ∧
        u = withPath ⟨scheme, host, port, [], none, none⟩ (cut endsAuthority text).2 := by
  obtain ⟨authority, tail, hcut⟩ : ∃ authority tail, cut endsAuthority text = (authority, tail) :=
    ⟨_, _, rfl⟩
  have hread : cut (fun c => isSlash c || c = '?' || c = '#') text = (authority, tail) := hcut
  rw [parseAfterSlashes, hread, hcut]
  dsimp only
  cases hauthority : parseAuthority? scheme authority with
  | none =>
    exact iff_of_false (fun h => nomatch h) fun ⟨_, _, h, _⟩ => nomatch h
  | some place =>
    obtain ⟨host, port⟩ := place
    constructor
    · intro h
      exact ⟨host, port, rfl, (Parsed.url.inj h).symm⟩
    · rintro ⟨host', port', hplace, rfl⟩
      obtain ⟨rfl, rfl⟩ := Prod.mk.inj (Option.some.inj hplace)
      rfl

/-- The segments of the path that a text ends with after its authority. None if it ends there. -/
def directoryOf (text : List Char) : List (List Char) :=
  match (cut endsAuthority text).2 with
  | [] => []
  | _ :: rest => splitPath rest

theorem parseAfterSlashes_append {scheme : String} {text path : List Char} {u : Url}
    (h : parseAfterSlashes scheme text = .url u) (htext : Plain text) (hpath : Plain path) :
    u.query = none ∧ parseAfterSlashes scheme (text ++ '/' :: path) =
      .url { u with path := pathOf (directoryOf text ++ splitPath path) } := by
  obtain ⟨authority, tail, hcut⟩ : ∃ authority tail, cut endsAuthority text = (authority, tail) :=
    ⟨_, _, rfl⟩
  obtain ⟨host, port, hauthority, rfl⟩ := parseAfterSlashes_ok.mp h
  obtain ⟨hsplit, -, hmark⟩ := cut_eq_iff.mp hcut
  have htail : Plain tail := fun c hc => htext c (hsplit ▸ List.mem_append_right authority hc)
  have hlonger : Plain (tail ++ '/' :: path) :=
    List.forall_mem_append.mpr ⟨htail, List.forall_mem_cons.mpr ⟨by decide, hpath⟩⟩
  have hcut' : cut endsAuthority (text ++ '/' :: path) = (authority, tail ++ '/' :: path) := by
    refine cut_append hcut ?_
    cases tail with
    | nil => simp [endsAuthority, isSlash]
    | cons c tail => exact hmark
  obtain ⟨before, hbefore, -⟩ := withPath_of_plain ⟨scheme, host, port, [], none, none⟩ htail
  obtain ⟨after, hafter, hpieces⟩ :=
    withPath_of_plain ⟨scheme, host, port, [], none, none⟩ hlonger
  have hdirectory : after = pathOf (directoryOf text ++ splitPath path) := by
    rw [directoryOf, hcut]
    cases tail with
    | nil => exact hpieces '/' path rfl
    | cons c rest => rw [hpieces c (rest ++ '/' :: path) rfl, splitPath_append]
  rw [hcut] at hauthority ⊢
  rw [hbefore, ← hdirectory]
  refine ⟨rfl, parseAfterSlashes_ok.mpr ⟨host, port, ?_, ?_⟩⟩
  · rw [hcut']
    exact hauthority
  · rw [hcut', hafter]

/-- **The URL of a text with a path behind it**: that of the text, with the segments of the path after
those of a directory, and dot segments resolved. -/
theorem parse_append {base : String} {u : Url} (hbase : Plain base.toList)
    (h : parse base = .url u) :
    u.query = none ∧ ∃ directory, ∀ path : List Char, Plain path →
      parse (base ++ String.ofList ('/' :: path)) =
        .url { u with path := pathOf (directory ++ splitPath path) } := by
  unfold parse at h
  rw [tidy_of_plain hbase] at h
  dsimp only at h
  split at h
  · cases h
  · next scheme after hscheme =>
    split at h
    · next hweb =>
      obtain ⟨hsuffix, hlonger⟩ := splitScheme?_append hscheme
      have hplain : Plain (after.dropWhile isSlash) := fun c hc =>
        hbase c (hsuffix.subset ((List.dropWhile_suffix _).subset hc))
      -- there is an authority after the slashes, so the slash of the path is not one of them
      have hplace : (after.dropWhile isSlash).isEmpty = false := by
        rw [List.isEmpty_eq_false_iff]
        intro hempty
        obtain ⟨host, port, hauthority, -⟩ := parseAfterSlashes_ok.mp h
        rw [hempty] at hauthority
        cases hauthority
      refine ⟨(parseAfterSlashes_append h hplain (List.forall_mem_nil _)).1,
        directoryOf (after.dropWhile isSlash), fun path hpath => ?_⟩
      have htidy : tidy (base ++ String.ofList ('/' :: path)).toList = base.toList ++ '/' :: path := by
        rw [String.toList_append, String.toList_ofList]
        exact tidy_of_plain
          (List.forall_mem_append.mpr ⟨hbase, List.forall_mem_cons.mpr ⟨by decide, hpath⟩⟩)
      have hslashes : (after ++ '/' :: path).dropWhile isSlash =
          after.dropWhile isSlash ++ '/' :: path := by
        rw [List.dropWhile_append, hplace]
        rfl
      unfold parse
      rw [htidy]
      dsimp only
      rw [hlonger]
      dsimp only
      rw [if_pos hweb, hslashes]
      exact (parseAfterSlashes_append h hplain hpath).2
    · cases h

/-! ## Paths of encoded segments -/

/-- No character of an encoded text has a part in the syntax of a URL. -/
theorem not_mem_syntax {c : Char} {text : List Char} (h : c ∈ Segment.encodeChars text) :
    c ∉ ['/', '\\', ' ', '"', '<', '>', '`', '#', '?', '\x7b', '\x7d'] := by
  have hsyntax : ∀ d ∈ ['/', '\\', ' ', '"', '<', '>', '`', '#', '?', '\x7b', '\x7d'],
      Segment.isBare d = false ∧ d ≠ '%' := by
    simp [Segment.isBare]
  intro hc
  obtain ⟨hbare, hpercent⟩ := hsyntax c hc
  exact Segment.not_mem_encodeChars hbare hpercent text h

theorem percentEncode_eq_self {encoded text : List Char}
    (h : ∀ c ∈ text, 0x20 ≤ c.toNat ∧ c.toNat ≤ 0x7E ∧ c ∉ encoded) :
    percentEncode encoded text = text := by
  induction text with
  | nil => rfl
  | cons c text ih =>
    obtain ⟨⟨hlow, hhigh, hc⟩, hrest⟩ := List.forall_mem_cons.mp h
    rw [percentEncode, List.flatMap_cons, if_neg (by simp [hc]; omega), List.singleton_append]
    exact congrArg (c :: ·) (ih hrest)

/-- Encoding a path leaves encoded segments as they are. -/
theorem encodePath_encodeChars (text : List Char) :
    encodePath (Segment.encodeChars text) = Segment.encodeChars text := by
  refine percentEncode_eq_self fun c hc => ?_
  obtain ⟨hlow, hhigh⟩ := Segment.printable_of_mem_encodeChars hc
  refine ⟨by omega, by omega, fun hmem => not_mem_syntax hc ?_⟩
  exact List.mem_cons_of_mem _ (List.mem_cons_of_mem _ hmem)

/-- A path of encoded segments, read as a path of a URL, has those segments. -/
theorem exists_path_eq_absolutePath {segments : List String} (h : segments ≠ []) :
    ∃ path, absolutePath segments = String.ofList ('/' :: path) ∧ Plain path ∧
      splitPath path = segments.map fun s => Segment.encodeChars s.toList := by
  obtain ⟨s, rest, rfl⟩ := List.exists_cons_of_ne_nil h
  obtain ⟨path, hpath⟩ : ∃ path, (absolutePath (s :: rest)).toList = '/' :: path := by
    rw [absolutePath, String.toList_ofList, List.flatMap_cons]
    exact ⟨_, rfl⟩
  have hmem : ∀ c ∈ path, 0x20 < c.toNat ∧ c ≠ '?' ∧ c ≠ '#' ∧ c ≠ '\\' := by
    intro c hc
    have hc : c ∈ (absolutePath (s :: rest)).toList := hpath ▸ List.mem_cons_of_mem _ hc
    rcases mem_absolutePath hc with rfl | ⟨t, hc⟩
    · decide
    · refine ⟨(Segment.printable_of_mem_encodeChars hc).1, ?_, ?_, ?_⟩ <;>
      · rintro rfl
        exact not_mem_syntax hc (by decide)
  refine ⟨path, ?_, fun c hc => ⟨(hmem c hc).1, (hmem c hc).2.1, (hmem c hc).2.2.1⟩, ?_⟩
  · rw [← hpath, String.ofList_toList]
  · have hslashes : path.map (fun c => if c = '\\' then '/' else c) = path := by
      refine (List.map_congr_left fun c hc => ?_).trans (List.map_id path)
      exact if_neg (hmem c hc).2.2.2
    have hpieces := splitOn_absolutePath (s :: rest)
    rw [hpath, Text.splitOn, if_pos rfl] at hpieces
    rw [splitPath, hslashes]
    exact (List.cons.inj hpieces).2

/-! ## The address of a call -/

/-- No identifier of a call is a dot segment. -/
def Undotted (e : Endpoint) : Prop :=
  ∀ id ∈ e.identifiers, id ≠ "." ∧ id ≠ ".."

/-- The segments of a call's path, as they are written. -/
def pieces (e : Endpoint) : List (List Char) :=
  e.segments.map fun s => Segment.encodeChars s.toList

/-- The dot segments of a path are the identifiers that are. -/
theorem named_pieces_iff {e : Endpoint} : (∀ s ∈ pieces e, Named s) ↔ Undotted e := by
  have hnamed {s : String} : Named (Segment.encodeChars s.toList) ↔ s ≠ "." ∧ s ≠ ".." := by
    simp [named_encodeChars_iff, ← String.toList_inj]
  rw [pieces, List.forall_mem_map]
  simp only [hnamed]
  cases e <;> simp [Endpoint.segments, Endpoint.identifiers, Undotted]

theorem pieces_ne_nil (e : Endpoint) : pieces e ≠ [] := by
  cases e <;> exact List.cons_ne_nil _ _

/-- What a request line asks for: the directory, and then the path of encoded segments. -/
theorem target_append {u : Url} (h : u.query = none) (directory segments : List String) :
    { u with path := directory ++ segments.map Segment.encode : Url }.target =
      String.join (directory.map ("/" ++ ·)) ++ absolutePath segments := by
  rw [← String.toList_inj, Url.target, h]
  simp [absolutePath, Segment.encode, String.toList_join, List.flatMap_map]

/-- **The address of a call**: the segments of the call's path after those of a directory, with dot
segments resolved. -/
theorem parse_path {base : String} {u : Url} (hbase : Plain base.toList) (h : parse base = .url u) :
    u.query = none ∧ ∃ directory, ∀ e : Endpoint, parse (base ++ e.path) =
      .url { u with path := (resolveDots (directory ++ pieces e)).map String.ofList } := by
  obtain ⟨hquery, directory, hparse⟩ := parse_append hbase h
  refine ⟨hquery, directory.map encodePath, fun e => ?_⟩
  have hsegments : e.segments ≠ [] := fun hnil => pieces_ne_nil e (by rw [pieces, hnil, List.map_nil])
  obtain ⟨path, hpath, hplain, hpieces⟩ := exists_path_eq_absolutePath hsegments
  have hencoded : (splitPath path).map encodePath = pieces e := by
    rw [hpieces, pieces, List.map_map]
    exact List.map_congr_left fun s _ => encodePath_encodeChars s.toList
  rw [Endpoint.path, hpath, hparse path hplain, pathOf, List.map_append, hencoded]

/-- **Requests go to the paths of their endpoints, but for dots.** An identifier that is `.` or `..` is
a dot segment of the path, and no other is; resolving dot segments leaves the path as it is exactly if
there is none. A call at a frontend is sent to a directory that depends on the frontend alone, and from
there along the segments of its path, exactly if no identifier of the call is a dot segment; the
request line then asks for the path as it is. -/
theorem address_keeps_segments (base : String) :
    (∀ e : Endpoint, (∀ s ∈ Text.splitOn '/' e.path.toList, s ≠ ['.'] ∧ s ≠ ['.', '.']) ↔
      Undotted e) ∧
    (∀ e : Endpoint, resolveDots (Text.splitOn '/' e.path.toList) =
      Text.splitOn '/' e.path.toList ↔ Undotted e) ∧
    (∀ u : Url, Plain base.toList → parse base = .url u → u.isWeb = true →
      ∃ directory : List String, ∀ e : Endpoint, ∃ url : Url,
        (∀ {m : Type → Type} [Monad m] (wire : Wire m) (body : Option Bytes),
          deliver wire (base ++ e.path) ⟨e, body⟩ =
            follow wire url maxRedirects (.ofCall url ⟨e, body⟩)) ∧
        url = { u with path := url.path } ∧
        (url.path = directory ++ e.segments.map Segment.encode ↔ Undotted e) ∧
        (Undotted e → url.target = String.join (directory.map ("/" ++ ·)) ++ e.path)) := by
  have hsplit (e : Endpoint) : Text.splitOn '/' e.path.toList = [] :: pieces e :=
    splitOn_absolutePath e.segments
  refine ⟨?dots, ?resolved, ?address⟩
  case dots =>
    intro e
    rw [hsplit, List.forall_mem_cons, ← named_pieces_iff]
    refine (and_iff_right ⟨by decide, by decide⟩).trans (forall₂_congr fun s hs => ?_)
    obtain ⟨id, -, rfl⟩ := List.mem_map.mp hs
    exact named_encodeChars.symm
  case resolved =>
    intro e
    rw [resolveDots_eq_self_iff, hsplit, List.forall_mem_cons, named_pieces_iff]
    exact and_iff_right ⟨rfl, rfl⟩
  case address =>
    intro u hbase h hweb
    obtain ⟨hquery, directory, hparse⟩ := parse_path hbase h
    have hkept {e : Endpoint} (hundotted : Undotted e) : resolveDots (directory ++ pieces e) =
        (directory.foldl enter []).reverse ++ pieces e := by
      rw [resolveDots, resolveAfter_append directory (pieces_ne_nil e),
        resolveAfter_of_named (named_pieces_iff.mpr hundotted)]
    have hencode (e : Endpoint) : e.segments.map Segment.encode = (pieces e).map String.ofList := by
      rw [pieces, List.map_map]
      rfl
    refine ⟨(directory.foldl enter []).reverse.map String.ofList,
      fun e => ⟨{ u with path := (resolveDots (directory ++ pieces e)).map String.ofList },
        ?sent, rfl, ⟨?undotted, ?kept⟩, ?target⟩⟩
    case sent =>
      intro m _ wire body
      rw [deliver, hparse e]
      exact if_pos hweb
    case undotted =>
      -- a dot segment of the path is not among the segments of the address
      intro hpath
      rw [hencode, ← List.map_append] at hpath
      rw [← named_pieces_iff]
      intro s hs
      refine named_resolveDots s (?_ : s ∈ resolveDots (directory ++ pieces e))
      rw [List.map_injective_iff.mpr (fun _ _ => String.ofList_inj.mp) hpath]
      exact List.mem_append_right _ hs
    case kept =>
      intro hundotted
      rw [hkept hundotted, List.map_append, hencode]
    case target =>
      intro hundotted
      rw [hkept hundotted, List.map_append, ← hencode]
      exact target_append hquery _ e.segments

/-- The builds of a job named `.` are asked for where the job named `builds` is. -/
theorem builds_of_dot_reach_job :
    ['.'] ∈ Text.splitOn '/' (Endpoint.listBuilds ⟨"."⟩).path.toList ∧
      resolveDots (Text.splitOn '/' (Endpoint.listBuilds ⟨"."⟩).path.toList) =
        Text.splitOn '/' (Endpoint.getJob ⟨"builds"⟩).path.toList ∧
      parse ("http://ci" ++ (Endpoint.listBuilds ⟨"."⟩).path) =
        .url ⟨"http", "ci", none, ["distci", "jobs", "builds"], none, none⟩ := by
  decide

end BuildBrowser.Http

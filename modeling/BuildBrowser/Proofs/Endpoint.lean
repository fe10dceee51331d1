import BuildBrowser.Proofs.Path
import Mathlib.Data.List.Forall2

/-!
# The request line names the call

A server tells calls apart by the method and the path. Both can be read back: the path is cut at its
slashes, the fixed texts among the pieces and their number name the kind of call, and the other pieces
are its identifiers, encoded.

`Kind.places` is that layout, a table by kind. `splitOn_path` says that every path is laid out as
the table says, with every identifier at its place. `ofRequest?` reads a call off its method and its
path with no knowledge of the call, and `ofRequest?_path` says that it undoes both. Injectivity needs
no comparison of kinds after that.
-/

namespace BuildBrowser.Endpoint

/-! ## The layout of a path -/

/-- The kinds of calls. -/
inductive Kind where
  | listJobs
  | getJob
  | setJob
  | listBuilds
  | triggerBuild
  | getBuild
  | getConsole
  | getArtifact
  | listTasks
  | getTask
  deriving DecidableEq, Repr

/-- The kind of a call. -/
def kind : Endpoint → Kind
  | .listJobs => .listJobs
  | .getJob _ => .getJob
  | .setJob _ => .setJob
  | .listBuilds _ => .listBuilds
  | .triggerBuild _ => .triggerBuild
  | .getBuild _ _ => .getBuild
  | .getConsole _ _ => .getConsole
  | .getArtifact _ _ _ => .getArtifact
  | .listTasks => .listTasks
  | .getTask _ => .getTask

/-- The identifiers of a call, in the order of its path. -/
def identifiers : Endpoint → List String
  | .listJobs | .listTasks => []
  | .getJob job | .setJob job | .listBuilds job | .triggerBuild job => [job.text]
  | .getBuild job build | .getConsole job build => [job.text, build]
  | .getArtifact job build artifact => [job.text, build, artifact.text]
  | .getTask task => [task.text]

/-- What stands between two slashes of a path: a fixed text, or the identifier with a number. -/
inductive Place where
  | fixed (text : String)
  | identifier (n : Nat)
  deriving DecidableEq, Repr

/-- The places of a kind's paths. The first is before the first slash. -/
def Kind.places : Kind → List Place
  | .listJobs => [.fixed "", .fixed "distci", .fixed "jobs"]
  | .getJob | .setJob => [.fixed "", .fixed "distci", .fixed "jobs", .identifier 0]
  | .listBuilds | .triggerBuild =>
    [.fixed "", .fixed "distci", .fixed "jobs", .identifier 0, .fixed "builds"]
  | .getBuild =>
    [.fixed "", .fixed "distci", .fixed "jobs", .identifier 0, .fixed "builds", .identifier 1]
  | .getConsole =>
    [.fixed "", .fixed "distci", .fixed "jobs", .identifier 0, .fixed "builds", .identifier 1,
      .fixed "console"]
  | .getArtifact =>
    [.fixed "", .fixed "distci", .fixed "jobs", .identifier 0, .fixed "builds", .identifier 1,
      .fixed "artifacts", .identifier 2]
  | .listTasks => [.fixed "", .fixed "distci", .fixed "tasks"]
  | .getTask => [.fixed "", .fixed "distci", .fixed "tasks", .identifier 0]

/-- A piece of a path is what its place asks for: the fixed text as it is written, or a segment that
stands for the identifier. -/
def Place.Holds (identifiers : List String) : Place → List Char → Prop
  | .fixed text, piece => piece = text.toList
  | .identifier n, piece => identifiers[n]? = some (Segment.decode (String.ofList piece))

/-- A segment is what its place asks for, before it is encoded. A fixed text has bare characters
only, so that encoding leaves it as it is. -/
def Place.Stands (identifiers : List String) : Place → String → Prop
  | .fixed text, s => s = text ∧ ∀ c ∈ text.toList, Segment.isBare c = true
  | .identifier n, s => identifiers[n]? = some s

theorem Place.Stands.holds {identifiers : List String} {place : Place} {s : String}
    (h : place.Stands identifiers s) :
    place.Holds identifiers (Segment.encodeChars s.toList) := by
  cases place with
  | fixed text =>
    obtain ⟨rfl, hbare⟩ := h
    exact Segment.encodeChars_of_bare hbare
  | identifier n =>
    rw [Place.Holds, decode_encode]
    exact h

/-- The segments of a call stand at the places of its kind. -/
theorem segments_stand (e : Endpoint) :
    List.Forall₂ (Place.Stands e.identifiers) e.kind.places ("" :: e.segments) := by
  cases e <;> simp [kind, Kind.places, segments, identifiers, Place.Stands, Segment.isBare]

/-- Every path is laid out as its kind says, with each identifier at its place. -/
theorem splitOn_path (e : Endpoint) :
    List.Forall₂ (Place.Holds e.identifiers) e.kind.places (Text.splitOn '/' e.path.toList) := by
  rw [path, splitOn_absolutePath]
  change List.Forall₂ _ _ (("" :: e.segments).map fun s => Segment.encodeChars s.toList)
  rw [List.forall₂_map_right_iff]
  exact e.segments_stand.imp fun _ _ => Place.Stands.holds

/-! ## Reading the call back -/

/-- The call that a method and the pieces of a path between slashes stand for. -/
def ofPieces? : Method → List String → Option Endpoint
  | .get, ["", "distci", "jobs"] => some .listJobs
  | .get, ["", "distci", "jobs", job] => some (.getJob ⟨Segment.decode job⟩)
  | .put, ["", "distci", "jobs", job] => some (.setJob ⟨Segment.decode job⟩)
  | .get, ["", "distci", "jobs", job, "builds"] => some (.listBuilds ⟨Segment.decode job⟩)
  | .post, ["", "distci", "jobs", job, "builds"] => some (.triggerBuild ⟨Segment.decode job⟩)
  | .get, ["", "distci", "jobs", job, "builds", build] =>
    some (.getBuild ⟨Segment.decode job⟩ (Segment.decode build))
  | .get, ["", "distci", "jobs", job, "builds", build, "console"] =>
    some (.getConsole ⟨Segment.decode job⟩ (Segment.decode build))
  | .get, ["", "distci", "jobs", job, "builds", build, "artifacts", artifact] =>
    some (.getArtifact ⟨Segment.decode job⟩ (Segment.decode build) ⟨Segment.decode artifact⟩)
  | .get, ["", "distci", "tasks"] => some .listTasks
  | .get, ["", "distci", "tasks", task] => some (.getTask ⟨Segment.decode task⟩)
  | _, _ => none

/-- The call that a method and a path stand for. -/
def ofRequest? (method : Method) (path : String) : Option Endpoint :=
  ofPieces? method ((Text.splitOn '/' path.toList).map String.ofList)

/-- Reading undoes writing. -/
theorem ofRequest?_path (e : Endpoint) : ofRequest? e.method e.path = some e := by
  have hpieces : (Text.splitOn '/' e.path.toList).map String.ofList =
      "" :: e.segments.map Segment.encode := by
    rw [path, splitOn_absolutePath, List.map_cons, List.map_map]
    rfl
  rw [ofRequest?, hpieces]
  have hdistci : Segment.encode "distci" = "distci" := by decide
  have hjobs : Segment.encode "jobs" = "jobs" := by decide
  have hbuilds : Segment.encode "builds" = "builds" := by decide
  have hconsole : Segment.encode "console" = "console" := by decide
  have hartifacts : Segment.encode "artifacts" = "artifacts" := by decide
  have htasks : Segment.encode "tasks" = "tasks" := by decide
  have hid (s : String) : Segment.decode (Segment.encode s) = s := decode_encode s
  cases e <;> simp [segments, method, ofPieces?, *]

/-- Calls of the same method and path are the same call: both are what is read back. -/
theorem eq_of_method_of_path {e₁ e₂ : Endpoint} (hmethod : e₁.method = e₂.method)
    (hpath : e₁.path = e₂.path) : e₁ = e₂ := by
  have h := ofRequest?_path e₁
  rw [hmethod, hpath, ofRequest?_path] at h
  exact (Option.some.inj h).symm

/-- The text of a method ends at the first space, so it can be told from the path after it. -/
theorem method_text_append_inj {m₁ m₂ : Method} {p₁ p₂ : String}
    (h : m₁.text ++ " " ++ p₁ = m₂.text ++ " " ++ p₂) : m₁ = m₂ ∧ p₁ = p₂ := by
  have hchars := congrArg String.toList h
  cases m₁ <;> cases m₂ <;>
    simp [Method.text, String.toList_append, String.toList_inj] at hchars ⊢ <;> exact hchars

/-- No two calls have the same request line. -/
theorem requestLine_injective : Function.Injective requestLine := by
  intro e₁ e₂ h
  obtain ⟨hmethod, hpath⟩ := method_text_append_inj h
  exact eq_of_method_of_path hmethod hpath

/-- **The method and the path name the call.** The call can be read off them; the path between
slashes is laid out by the kind of the call alone, with fixed texts as they are and segments that
decode to the identifiers; so no two calls share a method and a path, and no two share a request
line. -/
theorem request_names_endpoint :
    (∀ e : Endpoint, ofRequest? e.method e.path = some e) ∧
      (∀ e : Endpoint, List.Forall₂ (Place.Holds e.identifiers) e.kind.places
        (Text.splitOn '/' e.path.toList)) ∧
      (∀ e₁ e₂ : Endpoint, e₁.method = e₂.method → e₁.path = e₂.path → e₁ = e₂) ∧
      Function.Injective requestLine :=
  ⟨ofRequest?_path, splitOn_path, fun _ _ => eq_of_method_of_path, requestLine_injective⟩

end BuildBrowser.Endpoint

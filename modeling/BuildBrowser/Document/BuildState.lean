import BuildBrowser.Identifier

/-!
# The state of a build and its artifacts

The server owns the shape of a state document. Its one known field, `artifacts`, maps the name of
each artifact to the segments of its path; every other field is carried along untouched and in
order. `takeRecords` lists the artifacts and takes the file name, the last segment, off each path,
so that the document keeps the directories alone.
-/

namespace BuildBrowser

/-- The state of one build. -/
structure BuildState where
  artifacts : Members (List String)
  fields : Members Json.Value
  deriving DecidableEq, Repr, Inhabited

/-- One artifact as it is listed: its name, its whole path, and its file name if it has one. -/
structure ArtifactRecord where
  id : ArtifactId
  fullName : String
  fileName : Option String
  deriving DecidableEq, Repr

/-- The name of the field that lists artifacts. -/
def artifactsField : String := "artifacts"

namespace BuildState

/-- The members of a state document, folded: the artifacts, if their field has come, and the other
fields. -/
abbrev Parts := Option (Members (List String)) × Members Json.Value

/-- One more member of a state document. -/
def readMember (allowance : Nat) (parts : Parts) (name : String) (input : Bytes) :
    Json.Outcome Parts :=
  if name = artifactsField then
    match parts.1 with
    | some _ => .error (.here (.duplicateField name) (Json.closeObject input))
    | none =>
      match Json.colon input with
      | .error fault => .error fault
      | .ok rest =>
        (Json.object (Json.list Json.text) allowance rest).map fun (artifacts, rest) =>
          ((some artifacts, parts.2), rest)
  else
    (Json.keepMember (Json.value allowance) parts.2 name input).map fun (fields, rest) =>
      ((parts.1, fields), rest)

/-- A state document. It is read from an object only. -/
def decoder : Json.Decoder BuildState := fun allowance input =>
  (Json.fold (.record "BuildState") readMember (none, []) allowance input).map
    fun (parts, rest) => (⟨parts.1.getD [], parts.2⟩, rest)

/-- The value of the artifacts: each name with the list of its segments. -/
def artifactsValue (artifacts : Members (List String)) : Json.Value :=
  .object (artifacts.map fun (name, segments) => (name, .array (segments.map .string)))

instance : Json.Document BuildState where
  decoder := decoder
  toValue state := .object ((artifactsField, artifactsValue state.artifacts) :: state.fields)

/-- A field other than the artifacts. -/
def field? (name : String) (state : BuildState) : Option Json.Value :=
  Members.find? name state.fields

/-- Whether the document says nothing. -/
def isEmpty (state : BuildState) : Bool :=
  state.artifacts.isEmpty && state.fields.isEmpty

/-- How an artifact is listed. -/
def record (name : String) (segments : List String) : ArtifactRecord :=
  ⟨⟨name⟩, "/".intercalate segments, segments.getLast?⟩

/-- The artifacts in order, and the document with the file name taken off each path. -/
def takeRecords (state : BuildState) : List ArtifactRecord × BuildState :=
  (state.artifacts.map fun (name, segments) => record name segments,
    { state with artifacts := state.artifacts.map fun (name, segments) => (name, segments.dropLast) })

end BuildState

namespace ArtifactRecord

/-- The fields of a listed artifact. A file name that is not named is none. -/
def schema : Json.Schema ArtifactRecord where
  name := "ArtifactRecord"
  fields :=
    [.required "id" (Json.Document.decoder (α := ArtifactId)),
      .required "fullname" Json.text,
      ⟨"filename", Option String, Json.nullable Json.text, .ifUnnamed none⟩]
  build := fun (id, fullName, fileName, ()) => ⟨id, fullName, fileName⟩

instance : Json.Document ArtifactRecord where
  decoder := schema.decoder
  toValue r :=
    .object
      [("id", .string r.id.text), ("fullname", .string r.fullName),
        ("filename", Json.optional r.fileName)]

end ArtifactRecord

end BuildBrowser

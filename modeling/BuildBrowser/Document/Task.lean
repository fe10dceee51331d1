import BuildBrowser.Identifier

/-!
# Documents about tasks

The listing of open tasks, and one task with its description, of which only the status is read.
-/

namespace BuildBrowser

/-- The open tasks of a server, in its order. -/
structure TaskListing where
  tasks : List TaskId
  deriving DecidableEq, Repr

/-- A task and its description. -/
structure WorkerTask where
  id : TaskId
  data : Json.Value
  deriving DecidableEq, Repr

namespace TaskListing

/-- The fields of a listing of tasks. -/
def schema : Json.Schema TaskListing where
  name := "TasksBody"
  fields := [.required "tasks" (Json.list (Json.Document.decoder (α := TaskId)))]
  build := fun (tasks, ()) => ⟨tasks⟩

instance : Json.Document TaskListing where
  decoder := schema.decoder
  toValue l := .object [("tasks", Json.Document.toValue l.tasks)]

end TaskListing

namespace WorkerTask

/-- The fields of a task. -/
def schema : Json.Schema WorkerTask where
  name := "Task"
  fields :=
    [.required "id" (Json.Document.decoder (α := TaskId)), .withDefault "data" Json.value .null]
  build := fun (id, data, ()) => ⟨id, data⟩

instance : Json.Document WorkerTask where
  decoder := schema.decoder
  toValue t := .object [("id", .string t.id.text), ("data", t.data)]

/-- The status in the description, if it is a text. -/
def status? (t : WorkerTask) : Option String :=
  (t.data.member? "status").bind Json.Value.string?

end WorkerTask

end BuildBrowser

import BuildBrowser.Api.Client
import BuildBrowser.Command.Basic
import BuildBrowser.Render.Table

/-!
# Commands on tasks
-/

namespace BuildBrowser

/-- The text of a listing of tasks. -/
def tasksText (colour : Colour) : List TaskId → Rendering
  | [] => .whole "No tasks\n"
  | tasks => Table.render colour ⟨[.left "TASK"], tasks.map fun task => [task.text.toList]⟩

/-- The text of a task. -/
def WorkerTask.text (colour : Colour) (task : WorkerTask) : String :=
  fieldLine colour "Task" task.id.text ++
    (match task.status? with
      | some status => fieldLine colour "Status" status
      | none => "") ++
    indented task.data

namespace Command

/-- Lists the open tasks. -/
def listTasks (p : Presentation) : Command :=
  calling Api.listTasks fun tasks =>
    print (present p.format (Json.Document.toValue tasks) (tasksText p.colour tasks))

/-- Shows a task. -/
def getTask (p : Presentation) (task : TaskId) : Command :=
  calling (Api.getTask task) fun t =>
    print (present p.format (Json.Document.toValue t) (.whole (t.text p.colour)))

end Command

end BuildBrowser

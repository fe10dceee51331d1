/-!
# Members — named values in the order in which their names first appeared

An object of a document and the artifacts of a build are lists of names with values, in document
order. Writing to a name that is there replaces its value in place; a new name goes to the end. A
list made by such writes alone has no name twice (`Members.Distinct`).
-/

namespace BuildBrowser

/-- Names with their values, in order. -/
abbrev Members (α : Type) := List (String × α)

namespace Members

variable {α : Type}

/-- The names, in order. -/
def names (m : Members α) : List String :=
  m.map (·.1)

/-- No name appears twice. -/
def Distinct (m : Members α) : Prop :=
  m.names.Nodup

/-- The value of a name: the first one, if a name is there twice. -/
def find? (name : String) : Members α → Option α
  | [] => none
  | (n, a) :: rest => if n = name then some a else find? name rest

/-- The members with a value written to a name. -/
def insert (name : String) (value : α) : Members α → Members α
  | [] => [(name, value)]
  | (n, a) :: rest =>
    if n = name then (n, value) :: rest else (n, a) :: insert name value rest

/-- The members without a name. -/
def erase (name : String) (m : Members α) : Members α :=
  m.filter (·.1 ≠ name)

/-- The members after writing every pair of a list in turn. -/
def ofWrites (writes : List (String × α)) : Members α :=
  writes.foldl (fun m w => insert w.1 w.2 m) []

/-- The members in the order of their names. Names are ordered by scalar values. -/
def sorted (m : Members α) : Members α :=
  m.mergeSort fun a b => decide (a.1 ≤ b.1)

end Members

end BuildBrowser

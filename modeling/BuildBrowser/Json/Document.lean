import BuildBrowser.Json.Record
import BuildBrowser.Json.Writer

/-!
# Documents — types with a JSON form

A document type can be read from bytes and turned into a value. `read` and `text` are the two ways
across; `Document.text` is the compact form.
-/

namespace BuildBrowser.Json

/-- A type with a JSON form. -/
class Document (α : Type) where
  decoder : Decoder α
  toValue : α → Value

/-- The document that bytes hold. -/
def read (α : Type) [Document α] (input : Bytes) : Except Error α :=
  decode Document.decoder input

/-- The compact text of a document. -/
def Document.text {α : Type} [Document α] (a : α) : String :=
  (Document.toValue a).compact

instance : Document Value := ⟨value, id⟩

instance : Document String := ⟨text, .string⟩

instance : Document UInt64 := ⟨unsigned, fun n => .number (.nat n)⟩

instance {α : Type} [Document α] : Document (List α) :=
  ⟨list Document.decoder, fun as => .array (as.map Document.toValue)⟩

/-- The value of an option: `null` for none. -/
def optional {α : Type} [Document α] : Option α → Value
  | none => .null
  | some a => Document.toValue a

/-- The member of an option that is left out if there is none. -/
def memberIfSome {α : Type} [Document α] (name : String) : Option α → List (String × Value)
  | none => []
  | some a => [(name, Document.toValue a)]

end BuildBrowser.Json

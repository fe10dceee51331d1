import BuildBrowser.Json.Reader

/-!
# Records — documents with named fields

A record is described by its fields in order, each with a decoder and with what its absence means.
It is read from an object, whose members may come in any order and may have names that are no field,
or from a list of the values of its fields in order. `Slots` are the fields read so far, `Values` the
fields of a record that is complete.
-/

namespace BuildBrowser.Json

/-- What the absence of a field means: that the record is refused, that the field has a value if its
name is missing but not if a list is too short, or that it has a value in both cases. -/
inductive Absence (α : Type) where
  | refused
  | ifUnnamed (a : α)
  | always (a : α)

/-- A field of a record. -/
structure Field where
  name : String
  Carrier : Type
  decoder : Decoder Carrier
  absence : Absence Carrier

/-- A field that must be there. -/
def Field.required (name : String) {α : Type} (decoder : Decoder α) : Field :=
  ⟨name, α, decoder, .refused⟩

/-- A field that has a value of its own where it is absent. -/
def Field.withDefault (name : String) {α : Type} (decoder : Decoder α) (a : α) : Field :=
  ⟨name, α, decoder, .always a⟩

/-- The values of fields, as far as they have been read. -/
def Slots : List Field → Type
  | [] => Unit
  | f :: fs => Option f.Carrier × Slots fs

/-- A value for each field. -/
def Values : List Field → Type
  | [] => Unit
  | f :: fs => f.Carrier × Values fs

/-- Nothing read. -/
def Slots.empty : (fs : List Field) → Slots fs
  | [] => ()
  | _ :: fs => (none, Slots.empty fs)

/-- The bytes after a closing brace, if that is what comes next. -/
def closeObject (input : Bytes) : Bytes :=
  match skipBlanks input with
  | [] => []
  | b :: rest => if b = 0x7D then rest else b :: rest

/-- The slots after a member of an object, or nothing if its name is no field. A field that has been
read is refused; the place of that fault is after the object if it ends there, and before the next
byte that is not blank otherwise. -/
def Slots.member (allowance : Nat) (name : String) (input : Bytes) :
    (fs : List Field) → Slots fs → Option (Outcome (Slots fs))
  | [], _ => none
  | f :: fs, (slot, slots) =>
    if name = f.name then
      some <|
        match slot with
        | some _ => .error (.here (.duplicateField f.name) (closeObject input))
        | none =>
          match colon input with
          | .error fault => .error fault
          | .ok rest => (f.decoder allowance rest).map fun (a, rest) => ((some a, slots), rest)
    else
      (Slots.member allowance name input fs slots).map fun outcome =>
        outcome.map fun (slots, rest) => ((slot, slots), rest)

/-- A member of an object, be it a field or passed over. -/
def Slots.read (fs : List Field) (allowance : Nat) (slots : Slots fs) (name : String)
    (input : Bytes) : Outcome (Slots fs) :=
  match Slots.member allowance name input fs slots with
  | some outcome => outcome
  | none =>
    match colon input with
    | .error fault => .error fault
    | .ok rest => (skip rest).map fun rest => (slots, rest)

/-- The values of a record whose object has been read, or the first field that is missing. -/
def Slots.complete : (fs : List Field) → Slots fs → Except Cause (Values fs)
  | [], _ => .ok ()
  | f :: fs, (slot, slots) =>
    match slot, f.absence with
    | some a, _ | none, .ifUnnamed a | none, .always a =>
      (Slots.complete fs slots).map fun values => (a, values)
    | none, .refused => .error (.missingField f.name)

/-- The values of the fields that a list ends before, or the number of fields up to the first that
may not be left out. -/
def Values.afterEnd (index : Nat) : (fs : List Field) → Except Nat (Values fs)
  | [] => .ok ()
  | f :: fs =>
    match f.absence with
    | .always a => (Values.afterEnd (index + 1) fs).map fun values => (a, values)
    | _ => .error index

/-- The bytes after the bracket that must close a list whose fields have all been read. -/
def closeList (input : Bytes) : Except Fault Bytes :=
  match skipBlanks input with
  | [] => .error (.here .endInList [])
  | b :: rest =>
    if b = 0x5D then .ok rest
    else if b = 0x2C then
      match skipBlanks rest with
      | 0x5D :: rest => .error (.ahead .trailingComma (0x5D :: rest))
      | rest => .error (.ahead .trailingCharacters rest)
    else .error (.ahead .trailingCharacters (b :: rest))

/-- The values of fields from a list of them, and the bytes after its bracket. `total` is the number
of fields of the whole record, `index` that of the fields before these. -/
def Values.inOrder (record : String) (total allowance : Nat) :
    (fs : List Field) → (index : Nat) → Bytes → Outcome (Values fs)
  | [], _, input => (closeList input).map fun rest => ((), rest)
  | f :: fs, index, input =>
    match nextItem (index = 0) input with
    | .error fault => .error fault
    | .ok (.close rest) =>
      match Values.afterEnd index (f :: fs) with
      | .ok values => .ok (values, rest)
      | .error length => .error (.here (.wrongLength length record total) rest)
    | .ok (.item start) =>
      match f.decoder allowance start with
      | .error fault => .error fault
      | .ok (a, rest) =>
        (Values.inOrder record total allowance fs (index + 1) rest).map fun (values, rest) =>
          ((a, values), rest)

/-- A kind of record: the name that faults use, its fields, and what their values make up. -/
structure Schema (α : Type) where
  name : String
  fields : List Field
  build : Values fields → α

variable {α : Type}

/-- The record of slots, at the end of its object. -/
def Schema.finish (schema : Schema α) (outcome : Outcome (Slots schema.fields)) : Outcome α :=
  match outcome with
  | .error fault => .error fault
  | .ok (slots, rest) =>
    match Slots.complete schema.fields slots with
    | .ok values => .ok (schema.build values, rest)
    | .error cause => .error (.here cause rest)

/-- A record, from an object or a list. -/
def Schema.decoder (schema : Schema α) : Decoder α := fun allowance input =>
  match skipBlanks input with
  | 0x7B :: rest =>
    match allowance with
    | 0 => .error (.here .tooDeep rest)
    | allowance + 1 =>
      schema.finish
        (members (Slots.read schema.fields allowance) (Slots.empty schema.fields) rest)
  | 0x5B :: rest =>
    match allowance with
    | 0 => .error (.here .tooDeep rest)
    | allowance + 1 =>
      (Values.inOrder schema.name schema.fields.length allowance schema.fields 0 rest).map
        fun (values, rest) => (schema.build values, rest)
  | start => .error (mismatch (.record schema.name) start)

end BuildBrowser.Json

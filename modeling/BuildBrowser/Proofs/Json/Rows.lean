import BuildBrowser.Proofs.Json.Controls
import BuildBrowser.Proofs.Text.Split

/-!
# The lines of a pretty text

Each line of a pretty text holds one thing: a scalar, an empty list or object, or a bracket that opens
or closes one; before it stand two spaces for each open bracket and the name of a member, if it is one,
and after it a comma, if more follows. These are the rows of the value (`Value.rows`), by recursion on
the value and with nothing of its strings but where they are put.

**The law** is that the lines of the pretty text are the rows (`lines_pretty`), with a line feed after
each (`flatMap_rows`). A string is written within one row, and no row holds a control character
(`forall_mem_rowText`), whatever the strings hold.
-/

namespace BuildBrowser.Json

/-- What has brackets. -/
inductive Container where
  | list
  | object
  deriving DecidableEq, Repr

def Container.opening : Container → Char
  | .list => '['
  | .object => '\x7b'

def Container.closing : Container → Char
  | .list => ']'
  | .object => '\x7d'

/-- What a line of a pretty text holds. -/
inductive Token where
  | null
  | bool (b : Bool)
  | number (n : Number)
  | string (s : String)
  | empty (container : Container)
  | opens (container : Container)
  | closes (container : Container)
  deriving DecidableEq, Repr

def Token.text : Token → List Char
  | .null => ['n', 'u', 'l', 'l']
  | .bool true => ['t', 'r', 'u', 'e']
  | .bool false => ['f', 'a', 'l', 's', 'e']
  | .number n => n.text
  | .string s => writeString s
  | .empty container => [container.opening, container.closing]
  | .opens container => [container.opening]
  | .closes container => [container.closing]

/-- A line of a pretty text: the brackets that are open, the name of a member, what the line holds, and
whether more follows in the same brackets. -/
structure Row where
  depth : Nat
  name? : Option String
  token : Token
  comma : Bool
  deriving DecidableEq, Repr

/-- The name of a member, before what it holds. -/
def nameText : Option String → List Char
  | none => []
  | some name => writeString name ++ [':', ' ']

/-- The comma before what follows. -/
def commaText (comma : Bool) : List Char :=
  if comma then [','] else []

/-- The spaces before a line, inside so many open brackets. -/
def margin (depth : Nat) : List Char :=
  List.replicate (2 * depth) ' '

def Row.text (row : Row) : List Char :=
  margin row.depth ++ nameText row.name? ++ row.token.text ++ commaText row.comma

mutual

/-- The rows of a value, as a member with the name or an item, with a comma or without. -/
def Value.rows (depth : Nat) (name? : Option String) (comma : Bool) : Value → List Row
  | .null => [⟨depth, name?, .null, comma⟩]
  | .bool b => [⟨depth, name?, .bool b, comma⟩]
  | .number n => [⟨depth, name?, .number n, comma⟩]
  | .string s => [⟨depth, name?, .string s, comma⟩]
  | .array [] => [⟨depth, name?, .empty .list, comma⟩]
  | .array (v :: vs) =>
    ⟨depth, name?, .opens .list, false⟩ :: v.rows (depth + 1) none (!vs.isEmpty) ++
      itemRows (depth + 1) vs ++ [⟨depth, none, .closes .list, comma⟩]
  | .object [] => [⟨depth, name?, .empty .object, comma⟩]
  | .object ((name, v) :: ms) =>
    ⟨depth, name?, .opens .object, false⟩ :: v.rows (depth + 1) (some name) (!ms.isEmpty) ++
      memberRows (depth + 1) ms ++ [⟨depth, none, .closes .object, comma⟩]

/-- The rows of items. -/
def itemRows (depth : Nat) : List Value → List Row
  | [] => []
  | v :: vs => v.rows depth none (!vs.isEmpty) ++ itemRows depth vs

/-- The rows of members. -/
def memberRows (depth : Nat) : List (String × Value) → List Row
  | [] => []
  | (name, v) :: ms => v.rows depth (some name) (!ms.isEmpty) ++ memberRows depth ms

end

/-! ## What rows are made of -/

theorem lineStart_pretty (depth : Nat) : Style.pretty.lineStart depth = '\n' :: margin depth := rfl

theorem afterColon_pretty : Style.pretty.afterColon = [' '] := rfl

theorem numberText_ne_nil (n : Number) : n.text ≠ [] := by
  have hlayout (layout : Decimal.Layout) (s : Decimal.Scaled) : layout.text s ≠ [] := by
    unfold Decimal.Layout.text
    dsimp only
    split
    · split
      · simp
      · split <;> simp
    · simp
  cases n with
  | nat n => exact Nat.toDigits_ne_nil
  | negSucc n => exact List.cons_ne_nil _ _
  | binary64 bits =>
    show floatText bits ≠ []
    unfold floatText
    split
    · exact List.cons_ne_nil _ _
    · exact hlayout _ _

theorem tokenText_ne_nil (token : Token) : token.text ≠ [] := by
  cases token with
  | number n => exact numberText_ne_nil n
  | bool b => cases b <;> exact List.cons_ne_nil _ _
  | _ => exact List.cons_ne_nil _ _

theorem forall_mem_tokenText (token : Token) : ∀ c ∈ token.text, 0x20 ≤ c.toNat := by
  cases token with
  | null => simp [Token.text]
  | bool b => cases b <;> simp [Token.text]
  | number n => exact forall_mem_numberText n
  | string s => exact forall_mem_writeString s
  | empty container => cases container <;> simp [Token.text, Container.opening, Container.closing]
  | opens container => cases container <;> simp [Token.text, Container.opening]
  | closes container => cases container <;> simp [Token.text, Container.closing]

/-- **No row holds a control character**, whatever the strings in it hold. -/
theorem forall_mem_rowText (row : Row) : ∀ c ∈ row.text, 0x20 ≤ c.toNat := by
  have hmargin : ∀ c ∈ margin row.depth, 0x20 ≤ c.toNat := by
    intro c hc
    rw [List.eq_of_mem_replicate hc]
    decide
  have hname : ∀ c ∈ nameText row.name?, 0x20 ≤ c.toNat := by
    cases row.name? with
    | none => nofun
    | some name =>
      exact List.forall_mem_append.mpr ⟨forall_mem_writeString name, by simp⟩
  have hcomma : ∀ c ∈ commaText row.comma, 0x20 ≤ c.toNat := by
    cases row.comma <;> simp [commaText]
  simp only [Row.text, List.forall_mem_append]
  exact ⟨⟨⟨hmargin, hname⟩, forall_mem_tokenText row.token⟩, hcomma⟩

theorem rowText_ne_nil (row : Row) : row.text ≠ [] := by
  simp [Row.text, tokenText_ne_nil]

theorem not_mem_rowText (row : Row) : '\n' ∉ row.text ∧ '\r' ∉ row.text :=
  ⟨fun h => absurd (forall_mem_rowText row _ h) (by decide),
    fun h => absurd (forall_mem_rowText row _ h) (by decide)⟩

/-! ## Rows and the written value -/

/-- Rows as they are written, each with its line feed. -/
def rowsText (rows : List Row) : List Char :=
  rows.flatMap fun row => row.text ++ ['\n']

theorem rowsText_cons (row : Row) (rows : List Row) :
    rowsText (row :: rows) = row.text ++ '\n' :: rowsText rows := by
  simp [rowsText]

theorem rowsText_append (rows more : List Row) :
    rowsText (rows ++ more) = rowsText rows ++ rowsText more :=
  List.flatMap_append

mutual

/-- The rows of a value are its margin, its name, its text and its comma. -/
theorem rowsText_rows (depth : Nat) (name? : Option String) (comma : Bool) : (v : Value) →
    rowsText (v.rows depth name? comma) =
      margin depth ++ nameText name? ++ write .pretty depth v ++ commaText comma ++ ['\n']
  | .null => by
    rw [Value.rows, write]
    exact List.append_nil _
  | .bool true => by
    rw [Value.rows, write]
    exact List.append_nil _
  | .bool false => by
    rw [Value.rows, write]
    exact List.append_nil _
  | .number _ => by
    rw [Value.rows, write]
    exact List.append_nil _
  | .string _ => by
    rw [Value.rows, write]
    exact List.append_nil _
  | .array [] => by
    rw [Value.rows, write]
    exact List.append_nil _
  | .array (v :: vs) => by
    have hrest := rowsText_itemRows depth vs
    rw [Value.rows, write, List.cons_append, List.cons_append, rowsText_cons, rowsText_append,
      rowsText_append, rowsText_rows (depth + 1) none (!vs.isEmpty) v]
    simp only [rowsText_cons, Row.text, Token.text, lineStart_pretty, ← hrest]
    simp [nameText, commaText, rowsText, Container.opening, Container.closing]
  | .object [] => by
    rw [Value.rows, write]
    exact List.append_nil _
  | .object ((name, v) :: ms) => by
    have hrest := rowsText_memberRows depth ms
    rw [Value.rows, write, List.cons_append, List.cons_append, rowsText_cons, rowsText_append,
      rowsText_append, rowsText_rows (depth + 1) (some name) (!ms.isEmpty) v]
    simp only [rowsText_cons, Row.text, Token.text, lineStart_pretty, afterColon_pretty, ← hrest]
    simp [nameText, commaText, rowsText, Container.opening, Container.closing]

/-- The rows of the items after the first, and the bracket that closes the list. -/
theorem rowsText_itemRows (depth : Nat) : (vs : List Value) →
    commaText (!vs.isEmpty) ++ '\n' :: rowsText (itemRows (depth + 1) vs) ++ margin depth ++ [']'] =
      writeItems .pretty depth vs
  | [] => by
    rw [itemRows, writeItems, lineStart_pretty]
    rfl
  | v :: vs => by
    have hrest := rowsText_itemRows depth vs
    rw [itemRows, writeItems, lineStart_pretty, ← hrest, rowsText_append,
      rowsText_rows (depth + 1) none (!vs.isEmpty) v]
    simp [commaText, nameText]

/-- The rows of the members after the first, and the bracket that closes the object. -/
theorem rowsText_memberRows (depth : Nat) : (ms : List (String × Value)) →
    commaText (!ms.isEmpty) ++ '\n' :: rowsText (memberRows (depth + 1) ms) ++ margin depth ++ ['\x7d'] =
      writeMembers .pretty depth ms
  | [] => by
    rw [memberRows, writeMembers, lineStart_pretty]
    rfl
  | (name, v) :: ms => by
    have hrest := rowsText_memberRows depth ms
    rw [memberRows, writeMembers, lineStart_pretty, afterColon_pretty, ← hrest, rowsText_append,
      rowsText_rows (depth + 1) (some name) (!ms.isEmpty) v]
    simp [commaText, nameText]

end

/-- The pretty text of a value and a line feed are its rows, each with its line feed. -/
theorem rowsText_pretty (v : Value) : rowsText (v.rows 0 none false) = v.pretty.toList ++ ['\n'] := by
  rw [rowsText_rows, Value.pretty, String.toList_ofList]
  simp [margin, nameText, commaText]

/-- **The lines of a pretty text are the rows of its value.** -/
theorem lines_pretty (v : Value) :
    Text.lines v.pretty.toList = (v.rows 0 none false).map Row.text := by
  refine Text.lines_of_concat (List.forall_mem_map.mpr fun row _ => not_mem_rowText row) ?last ?written
  case last =>
    intro hlast
    obtain ⟨row, -, hrow⟩ := List.mem_map.mp (List.mem_of_getLast? hlast)
    exact rowText_ne_nil row hrow
  case written => rw [List.flatMap_map, ← rowsText_pretty, rowsText]

/-! ## Strings -/

mutual

/-- The strings in a value, names of members among them, in document order. -/
def Value.strings : Value → List String
  | .null | .bool _ | .number _ => []
  | .string s => [s]
  | .array items => itemStrings items
  | .object members => memberStrings members

/-- The strings in items. -/
def itemStrings : List Value → List String
  | [] => []
  | v :: vs => v.strings ++ itemStrings vs

/-- The strings in members. -/
def memberStrings : List (String × Value) → List String
  | [] => []
  | (name, v) :: ms => name :: v.strings ++ memberStrings ms

end

def Token.strings : Token → List String
  | .string s => [s]
  | _ => []

def Row.strings (row : Row) : List String :=
  row.name?.toList ++ row.token.strings

mutual

theorem strings_rows (depth : Nat) (name? : Option String) (comma : Bool) : (v : Value) →
    (v.rows depth name? comma).flatMap Row.strings = name?.toList ++ v.strings
  | .null | .bool _ | .number _ | .string _ | .array [] | .object [] => by
    simp [Value.rows, Value.strings, itemStrings, memberStrings, Row.strings, Token.strings]
  | .array (v :: vs) => by
    rw [Value.rows, Value.strings, itemStrings, List.cons_append, List.cons_append, List.flatMap_cons,
      List.flatMap_append, List.flatMap_append, strings_rows (depth + 1) none (!vs.isEmpty) v,
      strings_itemRows (depth + 1) vs]
    simp [Row.strings, Token.strings]
  | .object ((name, v) :: ms) => by
    rw [Value.rows, Value.strings, memberStrings, List.cons_append, List.cons_append, List.flatMap_cons,
      List.flatMap_append, List.flatMap_append, strings_rows (depth + 1) (some name) (!ms.isEmpty) v,
      strings_memberRows (depth + 1) ms]
    simp [Row.strings, Token.strings]

theorem strings_itemRows (depth : Nat) : (vs : List Value) →
    (itemRows depth vs).flatMap Row.strings = itemStrings vs
  | [] => rfl
  | v :: vs => by
    rw [itemRows, itemStrings, List.flatMap_append, strings_rows depth none (!vs.isEmpty) v,
      strings_itemRows depth vs]
    rfl

theorem strings_memberRows (depth : Nat) : (ms : List (String × Value)) →
    (memberRows depth ms).flatMap Row.strings = memberStrings ms
  | [] => rfl
  | (name, v) :: ms => by
    rw [memberRows, memberStrings, List.flatMap_append,
      strings_rows depth (some name) (!ms.isEmpty) v, strings_memberRows depth ms]
    rfl

end

end BuildBrowser.Json

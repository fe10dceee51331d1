import BuildBrowser.Json.Lexical

/-!
# The grammar of JSON texts

Which bytes are a value, said without a reader. A value is a word, a number, a string, a list or an
object; there is no bound to how deep it nests or how large a number is, and strings may write any
sixteen bits by their number, paired to surrogates or not. Bytes above the control characters stand
for themselves in a string, whether they are UTF-8 or not; a reader that keeps the string asks for
more.

An object is its members with commas between them. `Member` is one of them as it stands in the text,
with the blanks around its parts, and `ObjectText` puts members together, in front of nothing but
blanks: so the members of a document can be moved, and others can be put between them.
-/

namespace BuildBrowser.Json

/-- Nothing but blanks. -/
def Blanks (text : Bytes) : Prop :=
  ∀ b ∈ text, isBlank b = true

theorem blanks_nil : Blanks [] :=
  fun _ h => nomatch h

/-! ## Numbers -/

/-- One digit or more. -/
inductive DigitsText : Bytes → Prop
  | digits {b : UInt8} {more : Bytes} (hb : isDigit b = true) (hmore : ∀ d ∈ more, isDigit d = true) :
      DigitsText (b :: more)

/-- The integer part of a number: zero, or digits that do not start with zero. -/
inductive IntegerText : Bytes → Prop
  | zero : IntegerText [0x30]
  | digits {b : UInt8} {more : Bytes} (hzero : b ≠ 0x30) (h : DigitsText (b :: more)) :
      IntegerText (b :: more)

/-- The fraction of a number, which may be missing. -/
inductive FractionText : Bytes → Prop
  | missing : FractionText []
  | digits {digits : Bytes} (h : DigitsText digits) : FractionText (0x2E :: digits)

/-- The exponent of a number, which may be missing. -/
inductive ExponentText : Bytes → Prop
  | missing : ExponentText []
  | digits {mark : UInt8} {sign digits : Bytes} (hmark : mark = 0x65 ∨ mark = 0x45)
      (hsign : sign = [] ∨ sign = [0x2B] ∨ sign = [0x2D]) (h : DigitsText digits) :
      ExponentText (mark :: (sign ++ digits))

/-- A number without its sign. -/
inductive UnsignedText : Bytes → Prop
  | parts {integer fraction exponent : Bytes} (hinteger : IntegerText integer)
      (hfraction : FractionText fraction) (hexponent : ExponentText exponent) :
      UnsignedText (integer ++ (fraction ++ exponent))

/-! ## Strings -/

/-- A hexadecimal digit, of either case. -/
def IsHexDigit (b : UInt8) : Prop :=
  (0x30 ≤ b ∧ b ≤ 0x39) ∨ (0x41 ≤ b ∧ b ≤ 0x46) ∨ (0x61 ≤ b ∧ b ≤ 0x66)

/-- The letters that may stand after a backslash, but for the one that numbers follow. -/
def escapeLetters : Bytes :=
  [0x22, 0x5C, 0x2F, 0x62, 0x66, 0x6E, 0x72, 0x74]

/-- What may stand between the quotes of a string. -/
inductive StringText : Bytes → Prop
  | nil : StringText []
  | raw {b : UInt8} {more : Bytes} (hquote : b ≠ 0x22) (hescape : b ≠ 0x5C) (hcontrol : ¬b < 0x20)
      (h : StringText more) : StringText (b :: more)
  | letter {b : UInt8} {more : Bytes} (hb : b ∈ escapeLetters) (h : StringText more) :
      StringText (0x5C :: b :: more)
  | number {b c d e : UInt8} {more : Bytes} (hb : IsHexDigit b) (hc : IsHexDigit c)
      (hd : IsHexDigit d) (he : IsHexDigit e) (h : StringText more) :
      StringText (0x5C :: 0x75 :: b :: c :: d :: e :: more)

/-- Bytes that need no escape stand for themselves. -/
theorem StringText.plain {text : Bytes} (h : ∀ b ∈ text, b ≠ 0x22 ∧ b ≠ 0x5C ∧ ¬b < 0x20) :
    StringText text := by
  induction text with
  | nil => exact .nil
  | cons b more ih =>
    have ⟨⟨hquote, hescape, hcontrol⟩, hmore⟩ := List.forall_mem_cons.mp h
    exact .raw hquote hescape hcontrol (ih hmore)

/-! ## Values -/

/-- An item of a list as it stands in the text: its value, with blanks around it. -/
structure Item where
  before : Bytes
  value : Bytes
  after : Bytes
  before_blank : Blanks before
  after_blank : Blanks after

/-- The text of an item. -/
def Item.text (item : Item) : Bytes :=
  item.before ++ (item.value ++ item.after)

/-- A member of an object as it stands in the text: its name, with blanks around it, and its value. -/
structure Member extends Item where
  beforeName : Bytes
  name : Bytes
  afterName : Bytes
  beforeName_blank : Blanks beforeName
  name_string : StringText name
  afterName_blank : Blanks afterName

/-- The text of a member after the closing quote of its name. -/
def Member.textAfterName (m : Member) : Bytes :=
  m.afterName ++ 0x3A :: m.toItem.text

/-- The text of a member after the opening quote of its name. -/
def Member.textAfterQuote (m : Member) : Bytes :=
  m.name ++ 0x22 :: m.textAfterName

/-- The text of a member. -/
def Member.text (m : Member) : Bytes :=
  m.beforeName ++ 0x22 :: m.textAfterQuote

/-- A member without blanks. -/
def Member.bare (name value : Bytes) (h : StringText name) : Member :=
  ⟨⟨[], value, [], blanks_nil, blanks_nil⟩, [], name, [], blanks_nil, h, blanks_nil⟩

theorem Member.text_bare (name value : Bytes) (h : StringText name) :
    (bare name value h).text = 0x22 :: (name ++ 0x22 :: 0x3A :: value) := by
  simp [text, textAfterQuote, textAfterName, Item.text, bare]

/-- Texts with commas between them. -/
def commaSeparated : List Bytes → Bytes
  | [] => []
  | text :: more => text ++ more.flatMap (0x2C :: ·)

/-- The text of a value. -/
inductive ValueText : Bytes → Prop
  | null : ValueText [0x6E, 0x75, 0x6C, 0x6C]
  | true : ValueText [0x74, 0x72, 0x75, 0x65]
  | false : ValueText [0x66, 0x61, 0x6C, 0x73, 0x65]
  | number {text : Bytes} (h : UnsignedText text) : ValueText text
  | negative {text : Bytes} (h : UnsignedText text) : ValueText (0x2D :: text)
  | string {text : Bytes} (h : StringText text) : ValueText (0x22 :: (text ++ [0x22]))
  | list {inner : Bytes} {items : List Item} (hinner : Blanks inner)
      (h : ∀ item ∈ items, ValueText item.value) :
      ValueText (0x5B :: (inner ++ (commaSeparated (items.map Item.text) ++ [0x5D])))
  | object {inner : Bytes} {ms : List Member} (hinner : Blanks inner)
      (h : ∀ m ∈ ms, ValueText m.value) :
      ValueText (0x7B :: (inner ++ (commaSeparated (ms.map Member.text) ++ [0x7D])))

/-- The text of a document that is an object with these members. -/
inductive ObjectText (ms : List Member) : Bytes → Prop
  | object {before inner after : Bytes} (hbefore : Blanks before) (hinner : Blanks inner)
      (hafter : Blanks after) (h : ∀ m ∈ ms, ValueText m.value) :
      ObjectText ms (before ++ 0x7B :: (inner ++ (commaSeparated (ms.map Member.text) ++ 0x7D :: after)))

theorem ObjectText.bare {ms : List Member} {input : Bytes} (h : ∀ m ∈ ms, ValueText m.value)
    (hinput : input = 0x7B :: (commaSeparated (ms.map Member.text) ++ [0x7D])) : ObjectText ms input :=
  hinput ▸ .object blanks_nil blanks_nil blanks_nil h

/-- The member has a name: the text between its quotes stands for it. -/
def Member.Named (m : Member) (name : String) : Prop :=
  string (m.name ++ [0x22]) = .ok (name, [])

end BuildBrowser.Json

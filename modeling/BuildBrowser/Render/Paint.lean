/-!
# Paint — colours of a terminal

Painted text stands between the escape sequence of its tint, one of the terminal's 256 colours, and
the one that ends it. Without colour, painting leaves the text as it is.
-/

namespace BuildBrowser

/-- Whether output is coloured. -/
inductive Colour where
  | off
  | on
  deriving DecidableEq, Repr

/-- What a text is in the output: a heading, the label of a field, or secondary. -/
inductive Tint where
  | header
  | label
  | muted
  deriving DecidableEq, Repr

/-- The number of a tint's colour. -/
def Tint.code : Tint → Nat
  | .header => 74
  | .label => 245
  | .muted => 240

/-- The escape sequence that starts a colour. -/
def startSequence (code : Nat) : List Char :=
  ['\x1b', '[', '3', '8', ';', '5', ';'] ++ Nat.toDigits 10 code ++ ['m']

/-- The escape sequence that ends a colour. -/
def endSequence : List Char :=
  ['\x1b', '[', '0', 'm']

/-- A painted text. -/
def paint (colour : Colour) (tint : Tint) (text : List Char) : List Char :=
  match colour with
  | .off => text
  | .on => startSequence tint.code ++ text ++ endSequence

end BuildBrowser

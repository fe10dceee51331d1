import BuildBrowser.Decimal.Shortest

/-!
# JSON numbers — integers of 64 bits, and binary64 for all others

A number written without fraction and exponent that lies between -2^63 and 2^64 - 1 is kept as that
integer; every other number is kept as the bits of a binary64. The constructors leave each integer
one representation: `negSucc n` stands for `-(n + 1)`, so zero is not negative.
-/

namespace BuildBrowser.Json

/-- A number of a document. -/
inductive Number where
  | nat (n : UInt64)
  | negSucc (n : Fin 0x8000000000000000)
  | binary64 (bits : UInt64)
  deriving DecidableEq, Repr

/-- The integer that a number stands for, if it is kept as one. -/
def Number.toInt? : Number → Option Int
  | .nat n => some n.toNat
  | .negSucc n => some (-(n.val + 1 : Int))
  | .binary64 _ => none

/-- The decimal numeral of an integer. -/
def numeral : Int → List Char
  | .ofNat n => Nat.toDigits 10 n
  | .negSucc n => '-' :: Nat.toDigits 10 (n + 1)

/-- Binary64 numbers are positional from 10^-5 up to, not including, 10^16. -/
def floatLayout : Decimal.Layout := ⟨-5, 15⟩

/-- The text of a finite binary64 number. -/
def floatText (bits : UInt64) : List Char :=
  let magnitude := floatLayout.text (Decimal.Magnitude.ofBits bits).shortest
  if bits.toNat / 0x8000000000000000 = 1 then '-' :: magnitude else magnitude

/-- The text of a number. -/
def Number.text : Number → List Char
  | .nat n => Nat.toDigits 10 n.toNat
  | .negSucc n => '-' :: Nat.toDigits 10 (n.val + 1)
  | .binary64 bits => floatText bits

end BuildBrowser.Json

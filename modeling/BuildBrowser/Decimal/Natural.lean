/-!
# Decimal numerals of natural numbers

`numeral` writes a number without leading zeros; `ofDigits?` reads any run of ASCII digits, so it
reads back what `numeral` writes.
-/

namespace BuildBrowser.Decimal

/-- The numeral of a number. -/
def numeral (n : Nat) : String :=
  String.ofList (Nat.toDigits 10 n)

/-- The number that digits write one after another, after the digits of `n`. -/
def appendDigits (n : Nat) (digits : List Char) : Nat :=
  digits.foldl (fun n c => n * 10 + (c.toNat - 0x30)) n

/-- The number that a text writes, if it consists of digits and is not empty. -/
def ofDigits? (text : List Char) : Option Nat :=
  if !text.isEmpty && text.all (·.isDigit) then some (appendDigits 0 text) else none

end BuildBrowser.Decimal

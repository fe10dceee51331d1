/-!
# The shortest decimal of a binary64 number

A positive finite binary64 number `m · 2^q` is the nearest one to every real of an interval around
it, whose ends belong to it exactly if `m` is even. `shortest` looks for the coarsest decimal grid
that has a point in that interval: it tries one digit, two digits and so on, and at each length the
two grid points next to the number. Of two points inside it takes the nearer, and the even one if
both are equally near. All comparisons are between natural numbers.
-/

namespace BuildBrowser.Decimal

/-- The number `digits · 10^exponent`. -/
structure Scaled where
  digits : Nat
  exponent : Int
  deriving DecidableEq, Repr

/-- The magnitude of a finite binary64 number: `mantissa · 2^exponent`, and whether the numbers just
below it are twice as dense as those just above. -/
structure Magnitude where
  mantissa : Nat
  exponent : Int
  denseBelow : Bool
  deriving DecidableEq, Repr

/-- The magnitude that the 64 bits of a finite number stand for. -/
def Magnitude.ofBits (bits : UInt64) : Magnitude :=
  let field : Nat := bits.toNat / 0x10000000000000 % 0x800
  let fraction : Nat := bits.toNat % 0x10000000000000
  if field = 0 then ⟨fraction, -1074, false⟩
  else ⟨fraction + 0x10000000000000, (field : Int) - 1075, fraction = 0 && field > 1⟩

/-- `n · b^e` over `d · b^(-e)`: a power moved to the side where it is a natural number. -/
private def scale (base : Nat) (e : Int) (num den : Nat) : Nat × Nat :=
  if 0 ≤ e then (num * Nat.pow base e.toNat, den) else (num, den * Nat.pow base (-e).toNat)

/-- The decimal exponent of the leading digit of `num / den`, for a positive quotient. -/
def leadingExponent (num den : Nat) : Int :=
  if den ≤ num then ((Nat.toDigits 10 (num / den)).length : Int) - 1
  else
    let guess : Int := ((Nat.toDigits 10 den).length : Int) - (Nat.toDigits 10 num).length
    if den ≤ num * Nat.pow 10 guess.toNat then -guess else -(guess + 1)

/-- The point of the grid `10^k` for a magnitude, if one of the two next to it lies in its
interval. The numbers compared are in units of a quarter of the binary grid. -/
def Magnitude.onGrid? (m : Magnitude) (k : Int) : Option Nat :=
  let (unitNum, unitDen) := scale 2 (m.exponent - 2) 1 1
  let (gridNum, gridDen) := scale 10 k 1 1
  let unit := unitNum * gridDen
  let grid := gridNum * unitDen
  let value := 4 * m.mantissa * unit
  let low := (4 * m.mantissa - if m.denseBelow then 1 else 2) * unit
  let high := (4 * m.mantissa + 2) * unit
  let inside (point : Nat) : Bool :=
    if m.mantissa % 2 = 0 then low ≤ point && point ≤ high else low < point && point < high
  let d := value / grid
  let below := value - d * grid
  let above := (d + 1) * grid - value
  match inside (d * grid) && d > 0, inside ((d + 1) * grid) with
  | true, true => some (if below < above || (below = above && d % 2 = 0) then d else d + 1)
  | true, false => some d
  | false, true => some (d + 1)
  | false, false => none

/-- The number without the zeros at the end of its digits. -/
def Scaled.trimZeros : Nat → Scaled → Scaled
  | 0, s => s
  | steps + 1, s =>
    if s.digits ≠ 0 ∧ s.digits % 10 = 0 then trimZeros steps ⟨s.digits / 10, s.exponent + 1⟩ else s

/-- The first grid with a point in the interval, from the one with `digits` digits on. -/
def Magnitude.search (m : Magnitude) (leading : Int) : (steps digits : Nat) → Scaled
  | 0, _ => ⟨m.mantissa, m.exponent⟩
  | steps + 1, digits =>
    let k := leading - digits + 1
    match m.onGrid? k with
    | some d => ⟨d, k⟩
    | none => m.search leading steps (digits + 1)

/-- The shortest decimal that is nearer to the magnitude than to any other. Seventeen digits always
suffice. -/
def Magnitude.shortest (m : Magnitude) : Scaled :=
  if m.mantissa = 0 then ⟨0, 0⟩
  else
    let (num, den) := scale 2 m.exponent m.mantissa 1
    (m.search (leadingExponent num den) 18 1).trimZeros 20

/-- How a decimal is laid out: positional where its leading digit stands for a power of ten between
two bounds, scientific elsewhere. -/
structure Layout where
  lowest : Int
  highest : Int
  deriving DecidableEq, Repr

/-- The text of a decimal. A positional text always has a point with a digit on either side; the
exponent of a scientific text always has a sign. -/
def Layout.text (layout : Layout) (s : Scaled) : List Char :=
  let digits := Nat.toDigits 10 s.digits
  let leading : Int := s.exponent + digits.length - 1
  if layout.lowest ≤ leading ∧ leading ≤ layout.highest then
    if 0 ≤ s.exponent then digits ++ List.replicate s.exponent.toNat '0' ++ ['.', '0']
    else if 0 ≤ leading then
      digits.take (leading.toNat + 1) ++ '.' :: digits.drop (leading.toNat + 1)
    else '0' :: '.' :: List.replicate (-leading - 1).toNat '0' ++ digits
  else
    let sign := if leading < 0 then '-' else '+'
    let point := if digits.length > 1 then '.' :: digits.drop 1 else []
    digits.take 1 ++ point ++ 'e' :: sign :: Nat.toDigits 10 leading.natAbs

end BuildBrowser.Decimal

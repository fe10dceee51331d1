import BuildBrowser.Decimal.Natural
import BuildBrowser.Json.Document

/-!
# Build numbers

A job's builds are numbered by integers of 64 bits without sign. The number is compared as a number
and written as its numeral.
-/

namespace BuildBrowser

/-- The number of one execution of a job. -/
structure BuildNumber where
  value : UInt64
  deriving DecidableEq, Repr

namespace BuildNumber

instance : Ord BuildNumber := ⟨fun a b => compare a.value b.value⟩

instance : Inhabited BuildNumber := ⟨⟨0⟩⟩

instance : Json.Document BuildNumber where
  decoder allowance input := (Json.unsigned allowance input).map fun (n, rest) => (⟨n⟩, rest)
  toValue n := .number (.nat n.value)

/-- The numeral of a build number. -/
def text (n : BuildNumber) : String :=
  Decimal.numeral n.value.toNat

end BuildNumber

/-- Builds in the order of a listing: the newest, which has the greatest number, first. -/
def sortNewestFirst (builds : List BuildNumber) : List BuildNumber :=
  builds.mergeSort fun a b => decide (b.value ≤ a.value)

end BuildBrowser

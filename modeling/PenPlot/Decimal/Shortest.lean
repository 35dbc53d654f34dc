import PenPlot.Decimal.Exact

/-!
# The shortest decimal that reads back

The real numbers that round to a binary value form an interval around it, half a unit of its last
place wide to either side, or a quarter below a power of two, where the values get denser. The ends
belong to it if the significand is even. A decimal reads back as the value if it lies in the
interval, and the shortest such decimal is printed.

The decimals of `n` digits form a grid, and if any of its points lies in the interval, so does one of
the two neighbours of the value. The first grid with a neighbour in the interval wins; of two such
neighbours the nearer, and the upper one of a tie.
-/

namespace PenPlot.Decimal

open Float.Model (Format)

/-- The interval that rounds to `m * 2 ^ e`, in units of `2 ^ (e - 2)`. -/
structure Interval where
  /-- The lower end. -/
  low : Nat
  /-- The value itself. -/
  mid : Nat
  /-- The upper end. -/
  high : Nat
  /-- The ends belong to the interval. -/
  closed : Bool
  /-- The exponent of the unit. -/
  exponent : Int

/-- The interval that rounds to `m * 2 ^ e` in a format. -/
def Interval.ofBinary (format : Format) (m : Nat) (e : Int) : Interval :=
  let narrow := m = 1 <<< (format.mantissaBits - 1) ∧ format.minExponent < e
  { low := 4 * m - if narrow then 1 else 2
    mid := 4 * m
    high := 4 * m + 2
    closed := m % 2 == 0
    exponent := e - 2 }

/-- The point of the grid `10 ^ place` next to the value that lies in the interval, if one does. -/
def Interval.gridPoint? (interval : Interval) (place : Int) : Option Scientific :=
  let unit := (Fraction.ofBinary 1 interval.exponent).scale place
  let below := interval.mid * unit.num / unit.den
  let inside (j : Nat) : Bool :=
    let low := interval.low * unit.num
    let high := interval.high * unit.num
    let point := j * unit.den
    if interval.closed then low ≤ point && point ≤ high else low < point && point < high
  let belowNearer :=
    2 * (interval.mid * unit.num) < below * unit.den + (below + 1) * unit.den
  match inside below, inside (below + 1) with
  | true, true => some ⟨if belowNearer then below else below + 1, place⟩
  | true, false => some ⟨below, place⟩
  | false, true => some ⟨below + 1, place⟩
  | false, false => none

/-- Enough digits for every value of the formats used. -/
def longestDigits : Nat := 17

/-- The shortest decimal that reads back as `m * 2 ^ e`. -/
def shortest (format : Format) (m : Nat) (e : Int) : Scientific :=
  let value := Fraction.ofBinary m e
  let place := value.leadingPlace
  let interval := Interval.ofBinary format m e
  let found := (List.range' 1 longestDigits).findSome? fun (n : Nat) =>
    interval.gridPoint? (place - n)
  let last := place - longestDigits
  found.getD ⟨roundDiv (value.scale last).num (value.scale last).den, last⟩

end PenPlot.Decimal

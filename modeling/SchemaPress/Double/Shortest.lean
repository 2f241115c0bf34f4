import SchemaPress.Double.Nearest

/-!
The shortest decimal that reads back as a given double. The reals that round to the double form
an interval around it; the first decimal grid with a point in that interval gives the digits.
-/

namespace SchemaPress.Double

/-- A positive decimal `digits · 10 ^ exponent`. -/
structure Decimal where
  digits : Nat
  exponent : Int
  deriving DecidableEq, Repr

/-- The `k` with `10 ^ (k - 1) ≤ significand · 2 ^ exponent < 10 ^ k`, the significand being
positive. -/
def decimalMagnitude (significand : Nat) : Int → Int
  | .ofNat e => digitCount (significand * Nat.pow 2 e)
  | .negSucc e =>
    let scale := Nat.pow 2 (e + 1)
    if scale ≤ significand then digitCount (significand / scale)
    else 1 - (digitCount ((scale + significand - 1) / significand - 1) : Int)

/-- The point of the grid of step `10 ^ step` that reads back as the double, if there is one; of
two such points the nearer, and the even one of two equally near. The grid points and the ends of
the rounding interval are compared after scaling all of them to integers. -/
def gridPoint? (significand : Nat) (exponent step : Int) : Option Nat :=
  let scale := Nat.pow 2 exponent.toNat * Nat.pow 10 (-step).toNat
  let unit := 4 * Nat.pow 2 (-exponent).toNat * Nat.pow 10 step.toNat
  let gap := if significand = Nat.pow 2 52 ∧ leastExponent < exponent then 1 else 2
  let value := 4 * significand * scale
  let low := (4 * significand - gap) * scale
  let high := (4 * significand + 2) * scale
  let below := value / unit
  let even := significand % 2 = 0
  let belowFits : Bool := if even then low ≤ below * unit else low < below * unit
  let aboveFits : Bool := if even then (below + 1) * unit ≤ high else (below + 1) * unit < high
  if belowFits && aboveFits then
    let down := value - below * unit
    let up := (below + 1) * unit - value
    some (if down < up || (down = up && below % 2 = 0) then below else below + 1)
  else if belowFits then some below
  else if aboveFits then some (below + 1)
  else none

/-- Tries ever finer grids, `count` digits first. -/
def shortestFrom (significand : Nat) (exponent magnitude : Int) : Nat → Nat → Decimal
  | 0, count => ⟨significand, magnitude - count⟩
  | tries + 1, count =>
    let step := magnitude - count
    match gridPoint? significand exponent step with
    | some point => ⟨point, step⟩
    | none => shortestFrom significand exponent magnitude tries (count + 1)

/-- The shortest decimal that reads back as `significand · 2 ^ exponent`, which is positive.
Seventeen digits always suffice. -/
def shortest (significand : Nat) (exponent : Int) : Decimal :=
  shortestFrom significand exponent (decimalMagnitude significand exponent) 17 1

end SchemaPress.Double

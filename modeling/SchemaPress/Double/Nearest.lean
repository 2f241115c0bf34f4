import SchemaPress.Double.Basic

/-!
The double nearest to a decimal. The decimal is a quotient of integers; its leading 53 binary
digits are a floor division, rounded to the nearest with ties to the even significand.
-/

namespace SchemaPress.Double

/-- The number of decimal digits of a number; zero has none. -/
def digitCount (n : Nat) : Nat :=
  if n = 0 then 0 else (Nat.toDigits 10 n).length

/-- The integer nearest to a quotient, a half going to the even neighbour. -/
def roundQuotient (numerator denominator : Nat) : Nat :=
  let quotient := numerator / denominator
  let twice := 2 * (numerator % denominator)
  if denominator < twice || (twice = denominator && quotient % 2 = 1) then quotient + 1 else quotient

/-- The greatest `e` with `2 ^ e ≤ numerator / denominator`, both being positive. -/
def floorLog (numerator denominator : Nat) : Int :=
  let guess : Int := (numerator.log2 : Int) - (denominator.log2 : Int)
  let fits : Bool := match guess with
    | .ofNat e => denominator * Nat.pow 2 e ≤ numerator
    | .negSucc e => denominator ≤ numerator * Nat.pow 2 (e + 1)
  if fits then guess else guess - 1

/-- The double nearest to a positive quotient. -/
def ofQuotient (negative : Bool) (numerator denominator : Nat) : Double :=
  let exponent := max (floorLog numerator denominator - 52) leastExponent
  let significand := match exponent with
    | .ofNat e => roundQuotient numerator (denominator * Nat.pow 2 e)
    | .negSucc e => roundQuotient (numerator * Nat.pow 2 (e + 1)) denominator
  let (significand, exponent) :=
    if significand = Nat.pow 2 53 then (Nat.pow 2 52, exponent + 1) else (significand, exponent)
  if greatestExponent < exponent then .infinite negative
  else .finite negative significand exponent

/-- The double nearest to `± digits · 10 ^ exponent`. A value beyond every finite double is
infinite, and one too small to tell from zero is zero. -/
def ofDecimal (negative : Bool) (digits : Nat) (exponent : Int) : Double :=
  let magnitude := (digitCount digits : Int) + exponent
  if digits = 0 then zero negative
  else if 310 < magnitude then .infinite negative
  else if magnitude < -330 then zero negative
  else match exponent with
    | .ofNat e => ofQuotient negative (digits * Nat.pow 10 e) 1
    | .negSucc e => ofQuotient negative digits (Nat.pow 10 (e + 1))

end SchemaPress.Double

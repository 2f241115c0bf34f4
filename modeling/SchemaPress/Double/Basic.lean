/-!
Double-precision numbers as exact values. A finite double is its sign, significand and binary
exponent, so that every question about it is integer arithmetic.
-/

namespace SchemaPress

/-- A double: not a number, an infinity, or `± significand · 2 ^ exponent`. The reader makes
finite ones with a significand below `2 ^ 53` and an exponent from `-1074` to `971`. -/
inductive Double where
  | nan
  | infinite (negative : Bool)
  | finite (negative : Bool) (significand : Nat) (exponent : Int)
  deriving DecidableEq, Repr

namespace Double

/-- The least binary exponent of a finite double. -/
def leastExponent : Int := -1074

/-- The greatest binary exponent of a finite double. -/
def greatestExponent : Int := 971

/-- Zero, of either sign. -/
def zero (negative : Bool) : Double := .finite negative 0 leastExponent

/-- Whether the double is one of the two zeros. -/
def isZero : Double → Bool
  | .finite _ significand _ => significand == 0
  | _ => false

/-- The integer a double is equal to, if there is one. Both zeros are the integer zero. -/
def toInt? : Double → Option Int
  | .finite negative significand (.ofNat e) =>
    let n : Int := (significand * Nat.pow 2 e : Nat)
    some (if negative then -n else n)
  | .finite negative significand (.negSucc e) =>
    if significand % Nat.pow 2 (e + 1) = 0 then
      let n : Int := (significand / Nat.pow 2 (e + 1) : Nat)
      some (if negative then -n else n)
    else none
  | _ => none

end Double

end SchemaPress

import SchemaPress.Double.Shortest

/-!
The text of a double. It shows the shortest digits that read back, positionally from `0.0001` up
to sixteen integer digits and with a decimal exponent beyond; a positional text always has a
fraction.
-/

namespace SchemaPress.Double

/-- The text of a decimal exponent: its sign and at least two digits. -/
def exponentText (exponent : Int) : String :=
  let digits := String.ofList (Nat.toDigits 10 exponent.natAbs)
  (if exponent < 0 then "e-" else "e+") ++ (if digits.length < 2 then "0" ++ digits else digits)

/-- The digits with a decimal point after the first `point` of them, or with an exponent. -/
def layout (digits : List Char) (point : Int) : String :=
  if point ≤ -4 || 16 < point then
    match digits with
    | [] => ""
    | first :: rest =>
      String.ofList (first :: (if rest.isEmpty then [] else '.' :: rest)) ++ exponentText (point - 1)
  else if point ≤ 0 then
    "0." ++ String.ofList (List.replicate (-point).toNat '0' ++ digits)
  else
    let whole := point.toNat
    let padded := digits ++ List.replicate (whole - digits.length) '0'
    let fraction := padded.drop whole
    String.ofList (padded.take whole) ++ "." ++
      (if fraction.isEmpty then "0" else String.ofList fraction)

/-- The digits of a decimal without the zeros at their end. -/
def significantDigits (digits : Nat) : List Char :=
  ((Nat.toDigits 10 digits).reverse.dropWhile (· == '0')).reverse

/-- The text of a double. -/
def text : Double → String
  | .nan => "nan"
  | .infinite negative => if negative then "-inf" else "inf"
  | .finite negative significand exponent =>
    let sign := if negative then "-" else ""
    if significand = 0 then sign ++ "0.0"
    else
      let decimal := shortest significand exponent
      let point := (digitCount decimal.digits : Int) + decimal.exponent
      sign ++ layout (significantDigits decimal.digits) point

end SchemaPress.Double

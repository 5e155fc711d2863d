/-! # Decimals with fixed places

A fraction as a decimal with a given number of places, rounded to the nearest such decimal and,
between two of them, to the one whose last digit is even.
-/

namespace TableDriven.Text.Fixed

/-- The whole number nearest to a fraction; of two, the even one. -/
def roundDiv (numerator denominator : Nat) : Nat :=
  let quotient := numerator / denominator
  let twice := 2 * (numerator % denominator)
  if twice < denominator then quotient
  else if denominator < twice then quotient + 1
  else quotient + quotient % 2

/-- The digits of a number, with zeros in front up to `width`. -/
def padded (width number : Nat) : String :=
  let digits := Nat.toDigits 10 number
  String.ofList (List.replicate (width - digits.length) '0' ++ digits)

/-- A fraction with `places` decimal places, of which there must be some. -/
def ofFraction (places numerator denominator : Nat) : String :=
  let unit := Nat.pow 10 places
  let scaled := roundDiv (numerator * unit) denominator
  toString (scaled / unit) ++ "." ++ padded places (scaled % unit)

end TableDriven.Text.Fixed

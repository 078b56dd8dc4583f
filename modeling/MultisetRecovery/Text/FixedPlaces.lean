/-!
# Decimals with a fixed number of places

A floating-point number is a whole number times a power of two. It is written by rounding that exact
value to the decimal grid once, a tie going to the even neighbour. The sign bit is kept, also where
nothing but zeros follows it.
-/

namespace MultisetRecovery.Text

/-- The whole number nearest to a quotient; a tie goes to the even neighbour. -/
def roundDiv (num den : Nat) : Nat :=
  let q := num / den
  let twice := 2 * (num % den)
  if den < twice ∨ (twice = den ∧ q % 2 = 1) then q + 1 else q

/-- A whole number with its last digits behind the point. -/
def placePoint (places n : Nat) : String :=
  let digits := (toString n).toList
  let padded := List.replicate (places + 1 - digits.length) '0' ++ digits
  let (whole, fraction) := padded.splitAt (padded.length - places)
  String.ofList (if places = 0 then whole else whole ++ '.' :: fraction)

/-- The magnitude `mantissa * 2 ^ (exponent - 1074)` with a number of decimal places. -/
def magnitudeText (places mantissa exponent : Nat) : String :=
  placePoint places (roundDiv ((mantissa <<< exponent) * Nat.pow 10 places) (1 <<< 1074))

/-- A floating-point number with a number of decimal places. -/
def fixedPlaces (places : Nat) (x : Float) : String :=
  let bits := x.toBits.toNat
  let exponent := (bits >>> 52) % 2048
  let fraction := bits % (1 <<< 52)
  let sign := if 1 <<< 63 ≤ bits then "-" else ""
  if exponent = 2047 then if fraction = 0 then sign ++ "inf" else "nan"
  else if exponent = 0 then sign ++ magnitudeText places fraction 0
  else sign ++ magnitudeText places ((1 <<< 52) + fraction) (exponent - 1)

end MultisetRecovery.Text

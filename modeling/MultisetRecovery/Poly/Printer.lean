import MultisetRecovery.Poly.Basic

/-!
# The written form of a polynomial

Terms from the highest degree down, joined by plus signs. Coefficients are written as least
representatives, so there are no minus signs; a coefficient one is written only where it is the
constant term.
-/

namespace MultisetRecovery.Poly

variable {m : Modulus}

/-- The term `c * x ^ i`, for a coefficient that is not zero. -/
def termText (c : Residue m) (i : Nat) : String :=
  if i = 0 then toString c.val
  else
    let power := if i = 1 then "x" else "x^" ++ toString i
    if c = 1 then power else toString c.val ++ "*" ++ power

/-- The terms of the coefficients, the lowest of which belongs to `x ^ i`, highest degree first. -/
def terms : List (Residue m) → Nat → List String
  | [], _ => []
  | c :: cs, i => terms cs (i + 1) ++ if c = 0 then [] else [termText c i]

/-- The written form; that of the zero polynomial is `0`. -/
def text (f : Poly m) : String :=
  if f.isZero then "0" else " + ".intercalate (terms f.coeffs 0)

end MultisetRecovery.Poly

import MultisetRecovery.Poly.Division

/-!
# Powers modulo a polynomial

Repeated squaring, with every product reduced at once, so no intermediate polynomial has twice the
degree of the modulus. The base is squared after every bit of the exponent, the highest included.
That last square is never used, but where the leading coefficient of the modulus has no inverse it
can be the one product that cannot be reduced.
-/

namespace MultisetRecovery.Poly

variable {m : Modulus}

/-- The accumulator of repeated squaring holds `acc * base ^ k` modulo `f`. -/
def powModFrom (f acc base : Poly m) (k : Nat) : Except ArithmeticError (Poly m) :=
  if k = 0 then .ok acc
  else do
    let acc ← if k % 2 = 1 then (acc * base).mod f else .ok acc
    let base ← (base * base).mod f
    powModFrom f acc base (k / 2)
termination_by k

/-- `a ^ k` modulo `f`. -/
def powMod (a : Poly m) (k : Nat) (f : Poly m) : Except ArithmeticError (Poly m) := do
  let acc ← (1 : Poly m).mod f
  let base ← a.mod f
  powModFrom f acc base k

end MultisetRecovery.Poly

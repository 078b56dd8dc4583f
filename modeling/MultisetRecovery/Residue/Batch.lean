import MultisetRecovery.Residue

/-!
# Inverting many residues at once

All inverses of a list for the price of one. Going down the list the products of the entries so far
are formed, the product of all is inverted, and on the way back each entry is peeled off: from the
inverse of `p * x` come the inverse of `x`, which is `(p * x)⁻¹ * p`, and that of `p`, which is
`(p * x)⁻¹ * x`.

A zero in the list is reported with its position before any product is formed. Over a composite
modulus the entries may be non-zero and their product not invertible; that shows in the one
inversion.
-/

namespace MultisetRecovery.Residue

variable {m : Modulus}

/-- The inverse of `p`, and the inverses of the entries, from one inversion of the product of them
all. -/
def peel (p : Residue m) :
    List (Residue m) → Except ArithmeticError (Residue m × List (Residue m))
  | [] => do return (← p.inverse, [])
  | x :: xs => do
    let (i, rest) ← peel (p * x) xs
    return (i * x, i * p :: rest)

/-- The inverses of the entries, for entries already known to be non-zero. -/
def invertProduct (xs : List (Residue m)) : Except ArithmeticError (List (Residue m)) := do
  return (← peel 1 xs).2

/-- The inverse of every entry, in order. -/
def invertAll (xs : List (Residue m)) : Except ArithmeticError (List (Residue m)) :=
  match xs.findIdx? (· = 0) with
  | some i => .error (.invertZeroAt i)
  | none => invertProduct xs

end MultisetRecovery.Residue

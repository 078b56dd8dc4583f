import MultisetRecovery.Failure
import MultisetRecovery.Poly.Division
import MultisetRecovery.RootMultiset

/-!
# Multiplicities

How often `x - r` divides a polynomial, for each of a list of reported roots. The factors that have
been counted are divided out, so a root that is reported twice, or a number that is no root, is
found to divide zero times, and the report is refused.
-/

namespace MultisetRecovery

variable {m : Modulus}

/-- How often `x - r` divides a polynomial of degree at least one, and what is left after these
divisions. A constant is not divided. -/
def divideOut (r : Residue m) (f : Poly m) : Nat × Poly m :=
  if _h : 2 ≤ f.size then
    if (f.deflate r).2 = 0 then
      let (k, rest) := divideOut r (f.deflate r).1
      (k + 1, rest)
    else (0, f)
  else (0, f)
termination_by f.size
decreasing_by have := f.size_deflate_le r; omega

/-- The multiplicities of the reported roots in `f`, added to those counted before. -/
def countRootsFrom (counted : RootMultiset) (f : Poly m) :
    List Int → Except InternalError RootMultiset
  | [] => .ok counted
  | r :: rs =>
    match divideOut (Residue.ofInt m r) f with
    | (0, _) => .error (.notARoot r)
    | (k + 1, rest) => countRootsFrom (counted.insert r (k + 1)) rest rs

/-- The multiplicities of the reported roots. -/
def countRoots (f : Poly m) (rs : List Int) : Except InternalError RootMultiset :=
  countRootsFrom .empty f rs

end MultisetRecovery

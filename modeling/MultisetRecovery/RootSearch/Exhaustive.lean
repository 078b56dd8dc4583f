import MultisetRecovery.Failure
import MultisetRecovery.Poly.Basic

/-!
# Roots by trying every residue

For small moduli only. The search goes up through the residues and ends early when it has found as
many roots as the degree allows. Over a composite modulus a polynomial can have more roots than
that; the first ones are reported.
-/

namespace MultisetRecovery.Exhaustive

variable {m : Modulus}

/-- The roots among `left` residues from `r` on, the first `room` of them. -/
def rootsFrom (f : Poly m) : (left r room : Nat) → List (Residue m)
  | 0, _, _ => []
  | _, _, 0 => []
  | left + 1, r, room + 1 =>
    let x := Residue.ofNat m r
    if f.eval x = 0 then x :: rootsFrom f left (r + 1) room
    else rootsFrom f left (r + 1) (room + 1)

/-- The distinct roots of `f`, if there are at most `limit` residues to try. Every residue is a root
of zero. -/
def distinctRoots (limit : Int) (f : Poly m) : Except InternalError (List (Residue m)) :=
  if limit < m.value then .error (.fieldTooLarge m limit)
  else .ok (rootsFrom f m.value 0 (if f.isZero then m.value else f.size - 1))

end MultisetRecovery.Exhaustive

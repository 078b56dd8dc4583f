import MultisetRecovery.Poly.Power
import MultisetRecovery.RootSearch.Session

/-!
# Roots by the Frobenius map

Over a prime modulus `p` the residues are the roots of `x ^ p - x`, so the greatest common divisor
of that with `f` is the product of the distinct linear factors of `f`. Such a product is split by
Euler's criterion: for a shift `a`, the greatest common divisor with `(x + a) ^ ((p - 1) / 2) - 1`
collects the roots `r` for which `r + a` is a non-zero square. A random shift separates two given
roots with a chance of about one half, so the shifts tried for one split are limited in number, and
when they are used up the search fails.
-/

namespace MultisetRecovery

variable {m : Modulus}

namespace Poly

/-- The greatest common divisor of `f` and `x ^ p - x`. -/
def linearPart (f : Poly m) : Except ArithmeticError (Poly m) := do
  ((← X.powMod m.value f) - X).gcd f

/-- The greatest common divisor of `h` and `(x + a) ^ ((p - 1) / 2) - 1`. -/
def squareClass (h : Poly m) (a : Residue m) : Except ArithmeticError (Poly m) := do
  ((← (ofCoeffs [a, 1]).powMod m.eulerExponent h) - 1).gcd h

/-- A factor of `h` is proper if it is neither constant nor of the degree of `h`. -/
def IsProperPart (h g : Poly m) : Prop := 0 < g.degree ∧ g.degree < h.degree

instance (h g : Poly m) : Decidable (IsProperPart h g) :=
  inferInstanceAs (Decidable (0 < g.degree ∧ g.degree < h.degree))

theorem size_lt_of_isProperPart {h g : Poly m} (hg : IsProperPart h g) : g.size < h.size := by
  unfold IsProperPart degree at hg; omega

theorem size_quotient_lt {h g : Poly m} {qr : Poly m × Poly m} (hg : IsProperPart h g)
    (hq : h.divMod g = .ok qr) : qr.1.size < h.size := by
  have := size_fst_le_of_divMod hq
  unfold IsProperPart degree at hg; omega

end Poly

namespace Frobenius

variable {σ : Type} [Source σ]

/-- A proper part of `h` by the first shift that separates its roots, with `left` shifts still to
try before the search fails. The shifts are counted from one. -/
def splitFrom (limit : Int) (h : Poly m) :
    (left tried : Nat) → Search σ { g : Poly m // h.IsProperPart g }
  | 0, _ => Search.abandon (.splitExhausted h.degree limit)
  | left + 1, tried => do
    let a ← Search.residue m
    let g ← Search.ofArithmetic (h.squareClass a)
    if hg : h.IsProperPart g then
      return ⟨g, hg⟩
    else
      Search.note (.splitMissed (tried + 1) a.val)
      splitFrom limit h left (tried + 1)

/-- A proper part of `h`, found with at most `limit` shifts. -/
def split (limit : Int) (h : Poly m) : Search σ { g : Poly m // h.IsProperPart g } :=
  splitFrom limit h limit.toNat 0

/-- The roots of a product of distinct linear factors. After a split the roots of the quotient come
first. -/
def linearRoots (limit : Int) (h : Poly m) : Search σ (List (Residue m)) :=
  if h.degree = 1 then return [-h.coeff 0]
  else do
    let ⟨part, _hp⟩ ← split limit h
    match _hq : h.divMod part with
    | .error e => throw (.arithmetic e)
    | .ok qr =>
      let others ← linearRoots limit qr.1
      let these ← linearRoots limit part
      return others ++ these
termination_by h.size
decreasing_by
  · exact Poly.size_quotient_lt _hp _hq
  · exact Poly.size_lt_of_isProperPart _hp

/-- The distinct roots of `f`. Modulo two there is nothing to split with, and both residues are
tried. -/
def distinctRoots (limit : Int) (f : Poly m) : Search σ (List (Residue m)) :=
  if f.degree < 1 then return []
  else do
    let h ← Search.ofArithmetic (do (← f.monic).linearPart)
    Search.note (.linearPartKnown h.degree f.degree)
    if h.degree < 1 then return []
    else if m.value = 2 then return [0, 1].filter (h.eval · = 0)
    else linearRoots limit h

end Frobenius

end MultisetRecovery

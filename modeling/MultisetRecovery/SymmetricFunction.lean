import MultisetRecovery.Failure
import MultisetRecovery.Poly.Basic
import MultisetRecovery.Residue.Batch

/-!
# Symmetric functions

Power sums, elementary symmetric functions and the polynomial of a multiset of residues. Newton's
identities `k * e k = p 1 * e (k - 1) - p 2 * e (k - 2) + …` give the elementary symmetric functions
`e` from the power sums `p`, as long as `1` to `n` are invertible; over a prime modulus that means
fewer elements than residues. The sums may also be given as integers, which are not reduced before
they are multiplied. The polynomial with coefficients `e 0, -e 1, e 2, …`, highest first, has the
elements for its roots.
-/

namespace MultisetRecovery

variable {m : Modulus}

/-- The sums of the entries of `powers`, of `powers` times `xs`, of that times `xs`, and so on. -/
def powerSumsFrom (xs powers : List (Residue m)) : Nat → List (Residue m)
  | 0 => []
  | count + 1 =>
    powers.foldr (· + ·) 0 :: powerSumsFrom xs (List.zipWith (· * ·) powers xs) count

/-- The sums of the first powers, the second powers, and so on, so many as asked for. -/
def powerSums (xs : List (Residue m)) (count : Nat) : List (Residue m) := powerSumsFrom xs xs count

/-- The sum of products `p 1 * e 1 - p 2 * e 2 + p 3 * e 3 - …`. -/
def alternatingSum : List (Residue m) → List (Residue m) → Residue m
  | p :: ps, e :: es => p * e - alternatingSum ps es
  | _, _ => 0

/-- The elementary symmetric functions that follow those in `known`, which are given latest first
and end with `e 0 = 1`. One more is computed for each inverse of its number. -/
def elementaryFrom (sums : List (Residue m)) :
    (inverses known : List (Residue m)) → List (Residue m)
  | [], _ => []
  | i :: inverses, known =>
    let e := alternatingSum sums known * i
    e :: elementaryFrom sums inverses (e :: known)

/-- The residues of `1` to `n`. -/
def firstNumbers (m : Modulus) (n : Nat) : List (Residue m) :=
  (List.range n).map fun k => Residue.ofNat m (k + 1)

/-- The elementary symmetric functions `e 1, …, e n` that belong to `n` power sums. -/
def elementarySymmetric (sums : List (Residue m)) : Except InternalError (List (Residue m)) :=
  match Residue.invertAll (firstNumbers m sums.length) with
  | .ok inverses => .ok (elementaryFrom sums inverses [1])
  | .error e => .error (.countNotInvertible sums.length m e)

/-- The sum of products `p 1 * e 1 - p 2 * e 2 + …` of integers and least representatives, without
reduction. -/
def alternatingSumOfInts : List Int → List (Residue m) → Int
  | p :: ps, e :: es => p * e.val - alternatingSumOfInts ps es
  | _, _ => 0

/-- The elementary symmetric functions that follow those in `known`, for sums that need not be least
representatives. Each alternating sum is formed over the integers and reduced once. -/
def elementaryFromOfInts (sums : List Int) :
    (inverses known : List (Residue m)) → List (Residue m)
  | [], _ => []
  | i :: inverses, known =>
    let e := Residue.ofInt m (alternatingSumOfInts sums known) * i
    e :: elementaryFromOfInts sums inverses (e :: known)

/-- The elementary symmetric functions that belong to power sums given as integers. -/
def elementarySymmetricOfInts (m : Modulus) (sums : List Int) :
    Except InternalError (List (Residue m)) :=
  match Residue.invertAll (firstNumbers m sums.length) with
  | .ok inverses => .ok (elementaryFromOfInts sums inverses [1])
  | .error e => .error (.countNotInvertible sums.length m e)

/-- The coefficients `1, -e 1, e 2, …` by the elementary symmetric functions from `e 1` on. -/
def signed : List (Residue m) → List (Residue m)
  | [] => []
  | e :: es => -e :: (signed es).map (-·)

/-- The monic polynomial `x ^ n - e 1 * x ^ (n - 1) + e 2 * x ^ (n - 2) - …`. -/
def Poly.ofElementary (es : List (Residue m)) : Poly m := Poly.ofCoeffs ((signed es).reverse ++ [1])

end MultisetRecovery

import MultisetRecovery.RootSearch.Exhaustive
import MultisetRecovery.RootSearch.Frobenius
import MultisetRecovery.RootSearch.Multiplicity
import MultisetRecovery.SymmetricFunction

/-!
# Finders of roots

A finder is a way to come by the roots of a polynomial. Two compute them. The other two were told:
one is given roots and counts their multiplicities itself, one is given the multiplicities too.
`extractRoots` trusts none of them. The multiplicities that it returns belong to residues, are
positive and add up to the degree; where the finder has counted them by division, their linear
factors then make up the whole polynomial.
-/

namespace MultisetRecovery

variable {m : Modulus} {σ : Type} [Source σ]

/-- A way to come by the roots of a polynomial. -/
inductive Finder where
  /-- Split off linear factors, with a limit on the random shifts per split. -/
  | frobenius (attempts : Int)
  /-- Try every residue, with a limit on the modulus. -/
  | exhaustive (limit : Int)
  /-- Report these roots for every polynomial. -/
  | listed (roots : List Int)
  /-- Report these roots and multiplicities for every polynomial. -/
  | tabulated (roots : RootMultiset)

namespace Finder

/-- The distinct roots of a polynomial, in the order in which they are found. -/
def distinctRoots (finder : Finder) (f : Poly m) : Search σ (List Int) :=
  match finder with
  | frobenius attempts => do return (← Frobenius.distinctRoots attempts f).map (·.val)
  | exhaustive limit =>
    match Exhaustive.distinctRoots limit f with
    | .ok rs => return rs.map (·.val)
    | .error e => Search.abandon e
  | listed roots => return roots
  | tabulated roots => return roots.entries.map (·.1)

/-- The multiplicities of the roots that a finder reports, by division in ascending order of the
roots. -/
def countedRoots (finder : Finder) (f : Poly m) : Search σ RootMultiset :=
  if f.isZero then throw (.arithmetic .zeroHasEveryRoot)
  else do
    let f ← Search.ofArithmetic f.monic
    let rs ← finder.distinctRoots f
    match countRoots f (rs.mergeSort (· ≤ ·)) with
    | .ok roots => return roots
    | .error e => Search.abandon e

/-- The roots of a polynomial with their multiplicities. -/
def rootsWithMultiplicity (finder : Finder) (f : Poly m) : Search σ RootMultiset :=
  match finder with
  | tabulated roots => return roots
  | _ => finder.countedRoots f

/-- Whether a polynomial is a product of linear factors, by the number of its roots. -/
def splitsCompletely (finder : Finder) (f : Poly m) : Search σ Bool := do
  return (← finder.rootsWithMultiplicity f).total = f.degree

end Finder

/-- What is wrong with a report of the roots of a polynomial of degree `n`. -/
def RootMultiset.defect (m : Modulus) (n : Nat) (roots : RootMultiset) : Option Failure :=
  match roots.entries.find? fun e => ¬ m.IsCanonical e.1 ∨ e.2 < 1 with
  | some (r, k) => some (.internal (.malformedRoot r k))
  | none =>
    if (n : Int) < roots.total then some (.internal (.tooManyRoots roots.total n))
    else if roots.total < n then some (.noSolution (.doesNotSplit roots.total n))
    else none

/-- All roots of the polynomial with the given elementary symmetric functions, if it has as many as
they are. -/
def extractRoots (es : List (Residue m)) (finder : Finder) : Search σ RootMultiset := do
  let roots ← finder.rootsWithMultiplicity (Poly.ofElementary es)
  match roots.defect m es.length with
  | some e => throw e
  | none =>
    Search.note (.rootsExtracted roots.size)
    return roots

end MultisetRecovery

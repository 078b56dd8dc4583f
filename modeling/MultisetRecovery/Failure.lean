import MultisetRecovery.Hex
import MultisetRecovery.Residue

/-!
# Failures of a recovery

Why a well-formed request has no answer. Either there is no solution, which is a fact about the
request, or a step of the computation failed, which is a fact about the method or, over a composite
modulus, about divisors that have no inverse.
-/

namespace MultisetRecovery

/-- A request without a solution. -/
inductive NoSolution where
  /-- The polynomial of the messages has fewer roots than its degree. -/
  | doesNotSplit (found : Int) (degree : Nat)
  /-- The roots do not number as many as the messages asked for. -/
  | messageCount (expected : Int) (found : Nat)
  /-- The caller's own message is not a root. -/
  | ownMessageMissing (message : Int)
deriving DecidableEq

/-- A step that failed. -/
inductive InternalError where
  /-- Newton's identities divide by `1` to `n`, and one of these has no inverse. -/
  | countNotInvertible (n : Nat) (modulus : Modulus) (cause : ArithmeticError)
  /-- There are too many residues to try each. -/
  | fieldTooLarge (modulus : Modulus) (limit : Int)
  /-- No random shift separated the roots of a factor. -/
  | splitExhausted (degree attempts : Int)
  /-- A root was reported that is none. -/
  | notARoot (root : Int)
  /-- A root was reported that is no least representative, or with a multiplicity below one. -/
  | malformedRoot (root multiplicity : Int)
  /-- More roots were reported than the polynomial can have. -/
  | tooManyRoots (total : Int) (degree : Nat)
deriving DecidableEq

/-- Why a recovery of a well-formed request failed. -/
inductive Failure where
  /-- There is no solution. -/
  | noSolution (cause : NoSolution)
  /-- A step failed. -/
  | internal (cause : InternalError)
  /-- An operation on residues or polynomials was undefined. -/
  | arithmetic (cause : ArithmeticError)
deriving DecidableEq

namespace NoSolution

/-- The text that reports a request without a solution. -/
def message : NoSolution → String
  | doesNotSplit found n =>
    "polynomial does not split over F_p: " ++ toString found ++ " of " ++ toString n
      ++ " roots found"
  | messageCount expected found =>
    "expected " ++ toString expected ++ " messages, assembled " ++ toString found
  | ownMessageMissing v => "own message " ++ Hex.encodeMarked v ++ " is not in the solution"

end NoSolution

namespace InternalError

/-- The text that reports a failed step. -/
def message : InternalError → String
  | countNotInvertible n m e =>
    "cannot invert 1.." ++ toString n ++ " modulo " ++ toString m.value ++ ": " ++ e.message
  | fieldTooLarge m limit =>
    "field of size " ++ toString m.value ++ " exceeds the exhaustive search limit "
      ++ toString limit
  | splitExhausted degree attempts =>
    "equal-degree splitting of a degree-" ++ toString degree ++ " factor did not converge within "
      ++ toString attempts ++ " attempts"
  | notARoot r => "reported root " ++ Hex.encodeMarked r ++ " does not divide the polynomial"
  | malformedRoot r k => "malformed root entry " ++ toString r ++ ": " ++ toString k
  | tooManyRoots total n =>
    toString total ++ " roots counted for a degree-" ++ toString n ++ " polynomial"

end InternalError

namespace Failure

/-- The text that reports a failure. -/
def message : Failure → String
  | noSolution e => e.message
  | internal e => e.message
  | arithmetic e => e.message

end Failure

end MultisetRecovery

import MultisetRecovery.Hex
import MultisetRecovery.Outcome

/-!
# The journal

What a recovery tells about its progress. An entry is the event itself; severity, topic and wording
are read off it.
-/

namespace MultisetRecovery

/-- How much an entry matters. -/
inductive Severity where
  /-- Of interest when looking for a fault. -/
  | debug
  /-- Of interest when following a run. -/
  | info
  /-- Something was left undone. -/
  | warning
  /-- Something failed that should not. -/
  | error
deriving DecidableEq

namespace Severity

/-- The written name of a severity. -/
def name : Severity → String
  | debug => "DEBUG"
  | info => "INFO"
  | warning => "WARNING"
  | error => "ERROR"

end Severity

/-- The part of the work that an entry is about. -/
inductive Topic where
  /-- Checking the request. -/
  | request
  /-- Newton's identities. -/
  | symmetric
  /-- Finding roots. -/
  | roots
  /-- The recovery as a whole. -/
  | recovery
  /-- Timing a grid of instances. -/
  | timing
deriving DecidableEq

/-- An entry of the journal. -/
inductive Event where
  /-- A request for so many sums over a modulus of so many bits is well-formed. -/
  | validated (count bits : Nat)
  /-- So many elementary symmetric functions are known. -/
  | symmetricKnown (count : Nat)
  /-- The product of the distinct linear factors of a polynomial is known, by their degrees. -/
  | linearPartKnown (roots degree : Int)
  /-- A random shift left the roots of a factor together. -/
  | splitMissed (attempt shift : Nat)
  /-- So many distinct roots make up the polynomial. -/
  | rootsExtracted (count : Nat)
  /-- So many messages were recovered. -/
  | solved (count : Nat)
  /-- There is no solution. -/
  | unsolvable (stage : Stage) (reason : String)
  /-- A step of the computation failed. -/
  | stepFailed (stage : Stage) (reason : String)
  /-- The request is malformed. -/
  | rejected (reason : String)
  /-- An operation on residues or polynomials was undefined. -/
  | faulted (stage : Stage)
  /-- No instance of a grid point can be solved: there are more messages than residues. -/
  | gridPointSkipped (count bits : Int)
deriving DecidableEq

namespace Event

/-- How much an event matters. -/
def severity : Event → Severity
  | unsolvable _ _ => .info
  | stepFailed _ _ | gridPointSkipped _ _ => .warning
  | faulted _ => .error
  | _ => .debug

/-- The part of the work that an event belongs to. -/
def topic : Event → Topic
  | validated _ _ => .request
  | symmetricKnown _ => .symmetric
  | linearPartKnown _ _ | splitMissed _ _ | rootsExtracted _ => .roots
  | gridPointSkipped _ _ => .timing
  | _ => .recovery

/-- The text of an event. -/
def message : Event → String
  | validated n bits =>
    "validated " ++ toString n ++ " power sums over a " ++ toString bits ++ "-bit prime"
  | symmetricKnown n => "computed " ++ toString n ++ " elementary symmetric values"
  | linearPartKnown roots degree =>
    toString roots ++ " distinct roots in F_p out of degree " ++ toString degree
  | splitMissed attempt shift =>
    "split attempt " ++ toString attempt ++ " with shift " ++ Hex.encodeMarked shift
      ++ " did not separate roots"
  | rootsExtracted n => "extracted " ++ toString n ++ " distinct roots"
  | solved n => "solved for " ++ toString n ++ " messages"
  | unsolvable stage reason => "no valid solution after stage " ++ stage.name ++ ": " ++ reason
  | stepFailed stage reason => "internal error after stage " ++ stage.name ++ ": " ++ reason
  | rejected reason => "rejected input: " ++ reason
  | faulted stage => "unexpected fault after stage " ++ stage.name
  | gridPointSkipped n bits =>
    "skipping n=" ++ toString n ++ ": larger than the " ++ toString bits ++ "-bit prime"

end Event

end MultisetRecovery

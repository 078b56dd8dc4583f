/-!
# Outcomes of a recovery

A recovery passes through five stages in order and stops at the first failure. Its report says how
it ended, which stage it had completed, and, after a failure, why.
-/

namespace MultisetRecovery

/-- How a recovery ended. -/
inductive Status where
  /-- The messages were recovered, and the caller's own message is among them. -/
  | success
  /-- The request is well-formed, and there are no such messages. -/
  | invalidSolution
  /-- A step of the computation failed. -/
  | internalError
  /-- The request is malformed. -/
  | inputError
deriving DecidableEq

namespace Status

/-- The number of a status, also the exit code of a command that ends so. -/
def code : Status → Nat
  | success => 0
  | invalidSolution => 1
  | internalError => 100
  | inputError => 101

/-- The written name of a status. -/
def name : Status → String
  | success => "SUCCESS"
  | invalidSolution => "INVALID_SOLUTION"
  | internalError => "INTERNAL_ERROR"
  | inputError => "INPUT_ERROR"

end Status

/-- The stages of a recovery, each named for what is known when it is complete. -/
inductive Stage where
  /-- Nothing has been checked yet. -/
  | start
  /-- The request is well-formed. -/
  | validated
  /-- The elementary symmetric functions of the messages are known. -/
  | symmetric
  /-- The roots of their polynomial are known, with multiplicities. -/
  | factored
  /-- The messages are written out. -/
  | assembled
deriving DecidableEq

namespace Stage

/-- The written name of a stage. -/
def name : Stage → String
  | start => "start"
  | validated => "validated"
  | symmetric => "symmetric_values_computed"
  | factored => "factored"
  | assembled => "assembled"

end Stage

end MultisetRecovery

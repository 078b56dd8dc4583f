import MultisetRecovery.Random.SplitMix
import MultisetRecovery.Settings
import MultisetRecovery.Solution

/-!
# Recovering a multiset from its power sums

Given power sums `s 1, …, s n` modulo `p`, find the messages `x 1, …, x n` with `s k` the sum of
their `k`-th powers, and make sure that the caller's own message is one of them. The steps are:
check the request, compute the elementary symmetric functions, find the roots of their polynomial,
write the roots out.

A recovery answers every request with a report. What a report says about messages has been checked
on the way: the roots are divided out of the polynomial one by one, so their number and
multiplicities are beyond doubt whatever the random shifts were, and over composite moduli too.
-/

namespace MultisetRecovery

/-- How a recovery ended. -/
structure Report where
  /-- The kind of ending. -/
  status : Status
  /-- The messages in ascending order, in hexadecimal digits. -/
  messages : List String
  /-- The last stage that was completed. -/
  stage : Stage
  /-- Why there are no messages. -/
  reason : Option String
deriving DecidableEq

namespace Report

/-- Whether the messages were recovered. -/
def ok (r : Report) : Bool := r.status = .success

/-- The messages as numbers. -/
def values (r : Report) : List Nat := r.messages.map fun s => (Hex.decode s).getD 0

/-- The report of messages that were recovered. -/
def solved (messages : List String) : Report := ⟨.success, messages, .assembled, none⟩

/-- The report of a failure. -/
def failed (status : Status) (stage : Stage) (reason : String) : Report :=
  ⟨status, [], stage, some reason⟩

end Report

/-- All that a recovery leaves behind. -/
structure Recovery where
  /-- How it ended. -/
  report : Report
  /-- The buffers of the request afterwards. -/
  buffers : Value
  /-- What it told about its progress, earliest first. -/
  journal : List Event

namespace Failure

/-- How a recovery ends with a failure. -/
def status : Failure → Status
  | noSolution _ => .invalidSolution
  | internal _ | arithmetic _ => .internalError

/-- The journal entry of a failure. -/
def event (stage : Stage) : Failure → Event
  | noSolution e => .unsolvable stage e.message
  | internal e => .stepFailed stage e.message
  | arithmetic _ => .faulted stage

end Failure

namespace BufferError

/-- How a recovery ends with buffers that cannot be written to. -/
def status : BufferError → Status
  | notAscii _ _ _ => .internalError
  | _ => .inputError

/-- The journal entry for buffers that cannot be written to. -/
def event (stage : Stage) (e : BufferError) : Event :=
  match e with
  | notAscii _ _ _ => .faulted stage
  | _ => .rejected e.message

end BufferError

namespace Problem

/-- The number of messages. -/
def count (p : Problem) : Nat := p.sums.length

/-- The recovery of a failure after some stage. -/
def failed (buffers : Value) (journal : List Event) (stage : Stage) (e : Failure) : Recovery :=
  ⟨.failed e.status stage e.message, buffers, (e.event stage :: journal).reverse⟩

/-- The last step, which writes out the roots. -/
def finish (p : Problem) (buffers : Value) (journal : List Event) (roots : RootMultiset) :
    Recovery :=
  match roots.assemble p.message.val p.count with
  | .error e => failed buffers journal .factored (.noSolution e)
  | .ok messages =>
    match buffers.writeBuffers p.modulus messages with
    | (buffers, some e) =>
      ⟨.failed e.status .factored e.message, buffers, (e.event .factored :: journal).reverse⟩
    | (buffers, none) =>
      ⟨.solved messages, buffers, (Event.solved messages.length :: journal).reverse⟩

/-- The steps after the request has been checked. -/
def recover {σ : Type} [Source σ] (finder : Finder) (source : σ) (buffers : Value) (p : Problem) :
    Recovery :=
  let journal := [Event.validated p.count p.modulus.bitLength]
  match elementarySymmetric p.sums with
  | .error e => failed buffers journal .validated (.internal e)
  | .ok es =>
    let session := { Session.fresh source with journal := .symmetricKnown p.count :: journal }
    match (extractRoots es finder).run.run session with
    | (.error e, s) => failed buffers s.journal .symmetric e
    | (.ok roots, s) => p.finish buffers s.journal roots

end Problem

namespace Request

/-- The recovery that a request asks for, with random shifts from any source. -/
def recoverWith {σ : Type} [Source σ] (settings : Settings) (source : σ) (r : Request) : Recovery :=
  match r.validate with
  | .error e => ⟨.failed .inputError .start e.message, r.buffers, [.rejected e.message]⟩
  | .ok problem => problem.recover settings.finder source r.buffers

/-- The recovery that a request asks for. Settings and seed can be left out. -/
def recover (settings : Option Settings) (seed : Option Int) (r : Request) : Recovery :=
  let settings := settings.getD .default
  r.recoverWith settings (SplitMix.ofSeed (settings.seedFor seed))

/-- The request with modulus, message and sums in hexadecimal digits. -/
def ofTexts (modulus message : String) (sums : List String) : Request :=
  ⟨.text modulus, .text message, .list (sums.map .text), .absent, .absent⟩

/-- The request with modulus, message and sums as integers, which it passes on in hexadecimal
digits. -/
def ofIntegers (modulus message : Int) (sums : List Int) : Request :=
  ofTexts (Hex.encodeInt modulus) (Hex.encodeInt message) (sums.map Hex.encodeInt)

end Request

/-- Why there is neither an answer nor the certainty that there is none. -/
inductive RefusedReason where
  /-- The numbers are no well-formed request. -/
  | input (reason : String)
  /-- A step of the computation failed. -/
  | internal (reason : String)
deriving DecidableEq

namespace RefusedReason

/-- The text that reports a refusal. -/
def message : RefusedReason → String
  | input s => s
  | internal s => s

end RefusedReason

/-- The answer of a report: the messages in ascending order, or none if there is no solution. -/
def Report.answer (r : Report) : Except RefusedReason (Option (List Nat)) :=
  match r.status with
  | .success => .ok (some r.values)
  | .invalidSolution => .ok none
  | .inputError => .error (.input (r.reason.getD ""))
  | .internalError => .error (.internal (r.reason.getD ""))

/-- The messages with the given power sums, in ascending order, if there are any and `message` is
one of them. -/
def recoverIntegers (sums : List Int) (modulus message : Int) (seed : Option Int)
    (settings : Option Settings) : Except RefusedReason (Option (List Nat)) :=
  ((Request.ofIntegers modulus message sums).recover settings seed).report.answer

end MultisetRecovery

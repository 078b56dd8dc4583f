import MultisetRecovery.Instance.Basic
import MultisetRecovery.Recovery
import MultisetRecovery.Text.FixedPlaces
import MultisetRecovery.Timing.Statistics

/-!
# Timing a grid of instances

For each size of the prime one prime is drawn, and for each number of messages over it some
instances. All of them are drawn before the first is timed, so a plan does not depend on the clock.
A number of messages above the prime is skipped with a warning. Each recovery is checked against the
messages that its instance was made from.
-/

namespace MultisetRecovery

/-- What was measured at one point of the grid. -/
structure Measurement where
  /-- The number of bits of the prime. -/
  bits : Int
  /-- The number of messages. -/
  count : Int
  /-- The seconds that the recoveries took. -/
  seconds : List Float
  /-- The number of recoveries that did not give the messages of their instance. -/
  failures : Nat

namespace Measurement

/-- The mean in milliseconds. -/
def mean (x : Measurement) : Float := Statistics.mean x.seconds * 1e3

/-- The median in milliseconds. -/
def median (x : Measurement) : Float := Statistics.median x.seconds * 1e3

/-- The standard deviation in milliseconds. -/
def deviation (x : Measurement) : Float := Statistics.deviation x.seconds * 1e3

end Measurement

/-- Why no grid could be planned. -/
inductive PlanError where
  /-- There is no prime for a row. -/
  | prime (cause : PrimeError)
  /-- There is no instance for a point. -/
  | case (cause : InstanceError)
deriving DecidableEq

namespace PlanError

/-- The text that reports an error. -/
def message : PlanError → String
  | prime e => e.message
  | case e => e.message

end PlanError

/-- A point of the grid and the instances to time there. -/
structure GridPoint where
  /-- The number of bits of the prime. -/
  bits : Int
  /-- The number of messages. -/
  count : Int
  /-- The instances. -/
  instances : List Instance
deriving DecidableEq

/-- What is to be timed, and what was left out. -/
structure Plan where
  /-- The points of the grid, in order. -/
  points : List GridPoint
  /-- A warning for each point that was left out, in order. -/
  warnings : List Event
deriving DecidableEq

namespace Plan

variable {σ : Type} [Source σ]

/-- So many instances over a prime. -/
def drawInstances (prime : Nat) (count : Int) :
    Nat → Sampler σ → Except PlanError (List Instance) × Sampler σ
  | 0, s => (.ok [], s)
  | k + 1, s =>
    match Instance.randomOverInt prime count s with
    | (.error e, s) => (.error (.case e), s)
    | (.ok i, s) =>
      match drawInstances prime count k s with
      | (.error e, s) => (.error e, s)
      | (.ok rest, s) => (.ok (i :: rest), s)

/-- The points of one row of the grid. -/
def drawRow (bits : Int) (prime repeats : Nat) :
    List Int → Sampler σ → Except PlanError Plan × Sampler σ
  | [], s => (.ok ⟨[], []⟩, s)
  | count :: counts, s =>
    if (prime : Int) < count then
      match drawRow bits prime repeats counts s with
      | (.error e, s) => (.error e, s)
      | (.ok rest, s) => (.ok ⟨rest.points, .gridPointSkipped count bits :: rest.warnings⟩, s)
    else
      match drawInstances prime count repeats s with
      | (.error e, s) => (.error e, s)
      | (.ok instances, s) =>
        match drawRow bits prime repeats counts s with
        | (.error e, s) => (.error e, s)
        | (.ok rest, s) => (.ok ⟨⟨bits, count, instances⟩ :: rest.points, rest.warnings⟩, s)

/-- A plan for all sizes of primes and all numbers of messages. -/
def draw (counts : List Int) (repeats : Nat) :
    (sizes : List Int) → Sampler σ → Except PlanError Plan × Sampler σ
  | [], s => (.ok ⟨[], []⟩, s)
  | bits :: sizes, s =>
    match randomPrime bits s with
    | (.error e, s) => (.error (.prime e), s)
    | (.ok prime, s) =>
      match drawRow bits prime repeats counts s with
      | (.error e, s) => (.error e, s)
      | (.ok row, s) =>
        match draw counts repeats sizes s with
        | (.error e, s) => (.error e, s)
        | (.ok rest, s) => (.ok ⟨row.points ++ rest.points, row.warnings ++ rest.warnings⟩, s)

/-- Whether there is a point of the grid that is not left out, as far as primes can be drawn before
the first such point. -/
def comesToPoint (counts : List Int) : (sizes : List Int) → Sampler σ → Except PrimeError Bool
  | [], _ => .ok false
  | bits :: sizes, s =>
    match randomPrime bits s with
    | (.error e, _) => .error e
    | (.ok prime, s) =>
      if counts.any fun count => count ≤ prime then .ok true else comesToPoint counts sizes s

/-- The plan that a seed stands for. -/
def ofSeed (sizes counts : List Int) (repeats seed : Int) : Except PlanError Plan :=
  (draw counts repeats.toNat sizes (.fresh (SplitMix.ofSeed (some seed)))).1

end Plan

namespace Instance

/-- The request that an instance poses. -/
def request (i : Instance) : Request := .ofIntegers i.modulus i.message i.sums

/-- Whether a report gives the messages of an instance. -/
def isSolvedBy (i : Instance) (r : Report) : Bool :=
  r.ok && r.values.map Int.ofNat == i.messages.mergeSort (· ≤ ·)

end Instance

/-- What timing needs: a clock that tells seconds, and a way to run a recovery between two looks at
it. -/
structure Stopwatch (μ : Type → Type) where
  /-- The seconds that the clock shows. -/
  now : μ Float
  /-- The report of a recovery that is over when this is. -/
  run : (Unit → Report) → μ Report

namespace Stopwatch

variable {μ : Type → Type} [Monad μ]

/-- The seconds that the recovery of an instance takes, and whether it gives the messages. -/
def time (w : Stopwatch μ) (settings : Option Settings) (i : Instance) : μ (Float × Bool) := do
  let start ← w.now
  let report ← w.run fun _ => (i.request.recover settings none).report
  let stop ← w.now
  return (stop - start, i.isSolvedBy report)

/-- The measurement of a point of the grid. -/
def measure (w : Stopwatch μ) (settings : Option Settings) (p : GridPoint) : μ Measurement := do
  let results ← p.instances.mapM (w.time settings)
  return ⟨p.bits, p.count, results.map (·.1), (results.filter (!·.2)).length⟩

/-- The measurements of a plan, in order. -/
def measureAll (w : Stopwatch μ) (settings : Option Settings) (p : Plan) : μ (List Measurement) :=
  p.points.mapM (w.measure settings)

end Stopwatch

namespace Measurement

/-- The numbers of a list in ascending order, each once. -/
def ascending (vs : List Int) : List Int := vs.eraseDups.mergeSort (· ≤ ·)

/-- The last measurement of a point. -/
def at? (xs : List Measurement) (bits count : Int) : Option Measurement :=
  (xs.filter fun x => x.bits = bits ∧ x.count = count).getLast?

/-- A table of the medians in milliseconds: a row for each size of the prime, a column for each
number of messages. Points that were not measured stay empty. -/
def table (sep : String) (xs : List Measurement) : String :=
  let sizes := ascending (xs.map (·.bits))
  let counts := ascending (xs.map (·.count))
  let cell (bits count : Int) : String :=
    match at? xs bits count with
    | some x => Text.fixedPlaces 2 x.median
    | none => ""
  let head := sep.intercalate ("" :: counts.map toString)
  let rows := sizes.map fun bits => sep.intercalate (toString bits :: counts.map (cell bits))
  "\n".intercalate (head :: rows)

/-- The mark between the columns of a table unless told otherwise. -/
def defaultSeparator : String := ";"

end Measurement

end MultisetRecovery

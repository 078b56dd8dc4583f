import MultisetRecovery.Timing.Grid

/-!
# A clock of given steps

A clock that each look at it moves on by the next of a list of nanoseconds, which starts over at its
end. Timings by it are reproducible.
-/

namespace MultisetRecovery

/-- The state of the clock. -/
structure Ticks where
  /-- All the steps. -/
  steps : List Int
  /-- The steps not taken since the last start. -/
  rest : List Int
  /-- The nanoseconds that the clock shows. -/
  now : Int

namespace Ticks

/-- The clock at zero. -/
def ofList (steps : List Int) : Ticks := ⟨steps, steps, 0⟩

/-- The next step. A clock without steps stands still. -/
def step (t : Ticks) : Int × List Int :=
  match t.rest with
  | v :: rest => (v, rest)
  | [] =>
    match t.steps with
    | v :: rest => (v, rest)
    | [] => (0, [])

/-- The seconds of a number of nanoseconds. -/
def seconds (nanoseconds : Int) : Float := Float.ofInt nanoseconds / 1e9

/-- A look at the clock. -/
def read : StateM Ticks Float := do
  let t ← get
  let (v, rest) := t.step
  set { t with rest, now := t.now + v }
  return seconds (t.now + v)

/-- The clock as a stopwatch. -/
def stopwatch : Stopwatch (StateM Ticks) := ⟨read, fun report => pure (report ())⟩

end Ticks

end MultisetRecovery

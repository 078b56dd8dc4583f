import MultisetRecovery.Random.Sampler

/-!
# A source that reads a tape

A fixed list of integers, read in order and started over at its end. Whatever a random process can
do, some tape makes it do.
-/

namespace MultisetRecovery

/-- A list of integers and what is left of it to read. -/
structure Tape where
  /-- All the entries. -/
  entries : List Nat
  /-- The entries not read since the last start. -/
  rest : List Nat

namespace Tape

/-- The tape at its start. -/
def ofList (entries : List Nat) : Tape := ⟨entries, entries⟩

/-- The next entry. On a tape without entries it is zero. -/
def read (t : Tape) : Nat × Tape :=
  match t.rest with
  | v :: rest => (v, ⟨t.entries, rest⟩)
  | [] =>
    match t.entries with
    | v :: rest => (v, ⟨t.entries, rest⟩)
    | [] => (0, t)

instance : Source Tape := ⟨fun _ => read⟩

end Tape

end MultisetRecovery

import MultisetRecovery.Failure
import MultisetRecovery.Journal
import MultisetRecovery.Random.Sampler

/-!
# Sessions

A search for roots draws random numbers, writes to a journal and can fail. A failed search has still
drawn and written, so what it leaves behind is a session in either case.
-/

namespace MultisetRecovery

/-- What a search leaves behind. -/
structure Session (σ : Type) where
  /-- The random numbers still to come, and how many were drawn. -/
  sampler : Sampler σ
  /-- The events so far, latest first. -/
  journal : List Event

/-- The session before anything has happened. -/
def Session.fresh {σ : Type} (source : σ) : Session σ := ⟨.fresh source, []⟩

/-- A computation that may draw, write to the journal and fail. -/
abbrev Search (σ : Type) := ExceptT Failure (StateM (Session σ))

namespace Search

variable {σ α : Type}

/-- An entry in the journal. -/
def note (e : Event) : Search σ Unit :=
  modify fun s => { s with journal := e :: s.journal }

/-- A random residue. -/
def residue [Source σ] (m : Modulus) : Search σ (Residue m) := do
  let s ← get
  let (v, sampler) := s.sampler.below m.value
  set { s with sampler }
  return Residue.ofNat m v

/-- A failure of a step. -/
def abandon (e : InternalError) : Search σ α := throw (.internal e)

/-- The value of an operation on residues or polynomials, if it is defined. -/
def ofArithmetic : Except ArithmeticError α → Search σ α
  | .ok a => pure a
  | .error e => throw (.arithmetic e)

end Search

end MultisetRecovery

/-!
# Sources of random numbers

A source answers a request for a number of random bits with an integer and its next state. Nothing
is asked of the integer, so a statement about every source is a statement about every sequence of
draws. A sampler is a source together with the number of draws made from it.

An integer below `w` is taken from 64 bits more than `w` has, reduced modulo `w`.
-/

namespace MultisetRecovery

/-- A state from which random integers can be drawn. -/
class Source (σ : Type) where
  /-- An integer for a request of so many bits, and the state that follows. -/
  next : Nat → σ → Nat × σ

/-- A source and the number of draws made from it. -/
structure Sampler (σ : Type) where
  /-- The state of the source. -/
  source : σ
  /-- The draws so far. -/
  draws : Nat

/-- The ways in which a draw can be undefined. -/
inductive DrawError where
  /-- There is no integer in the range. -/
  | emptyRange
  /-- There is nothing to choose from. -/
  | emptyChoice
deriving DecidableEq

namespace DrawError

/-- The text that reports an error. -/
def message : DrawError → String
  | emptyRange => "empty range for randrange()"
  | emptyChoice => "Cannot choose from an empty sequence"

end DrawError

namespace Sampler

variable {σ : Type}

/-- The sampler that has not drawn yet. -/
def fresh (source : σ) : Sampler σ := ⟨source, 0⟩

variable [Source σ]

/-- One draw. -/
def draw (k : Nat) (s : Sampler σ) : Nat × Sampler σ :=
  let (v, next) := Source.next k s.source
  (v, ⟨next, s.draws + 1⟩)

/-- An integer of at most `k` bits. -/
def bits (k : Nat) (s : Sampler σ) : Nat × Sampler σ :=
  let (v, s) := s.draw k
  (v % (1 <<< k), s)

/-- An integer below `w`, for `w` positive. -/
def below (w : Nat) (s : Sampler σ) : Nat × Sampler σ :=
  let (v, s) := s.draw (w.log2 + 1 + 64)
  (v % w, s)

/-- An integer of the range from `lo` up to, and not including, `hi`. Nothing is drawn for an empty
range. -/
def between (lo hi : Nat) (s : Sampler σ) : Except DrawError Nat × Sampler σ :=
  if hi ≤ lo then (.error .emptyRange, s)
  else
    let (v, s) := s.below (hi - lo)
    (.ok (lo + v), s)

/-- A member of a list. Nothing is drawn for an empty list. -/
def choose {α : Type} (as : List α) (s : Sampler σ) : Except DrawError α × Sampler σ :=
  if as.isEmpty then (.error .emptyChoice, s)
  else
    let (i, s) := s.below as.length
    (match as[i]? with
      | some a => .ok a
      | none => .error .emptyChoice, s)

theorem draws_draw (k : Nat) (s : Sampler σ) : (s.draw k).2.draws = s.draws + 1 := rfl

theorem draws_below (w : Nat) (s : Sampler σ) : (s.below w).2.draws = s.draws + 1 := rfl

theorem below_lt {w : Nat} (h : 0 < w) (s : Sampler σ) : (s.below w).1 < w := Nat.mod_lt _ h

end Sampler

end MultisetRecovery

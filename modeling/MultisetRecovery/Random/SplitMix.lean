import MultisetRecovery.Random.Sampler

/-!
# A seeded source

The SplitMix generator with a state of 64 bits. Each word adds a constant to the state and mixes the
sum by two multiplications and three shifts. A request for `k` bits takes as many words as cover
them, the first word lowest.
-/

namespace MultisetRecovery

/-- The state of the generator. -/
structure SplitMix where
  /-- The sum that is mixed into words. -/
  state : UInt64
deriving DecidableEq

namespace SplitMix

/-- The state that a seed stands for. Without a seed it is that of zero. -/
def ofSeed (seed : Option Int) : SplitMix := ⟨UInt64.ofNat (seed.getD 0 % UInt64.size).toNat⟩

/-- The word that a state is mixed to. -/
def mix (z : UInt64) : UInt64 :=
  let z := (z ^^^ (z >>> 30)) * 0xBF58476D1CE4E5B9
  let z := (z ^^^ (z >>> 27)) * 0x94D049BB133111EB
  z ^^^ (z >>> 31)

/-- The next word. -/
def word (g : SplitMix) : UInt64 × SplitMix :=
  let state := g.state + 0x9E3779B97F4A7C15
  (mix state, ⟨state⟩)

/-- The number that a run of words stands for, the first word lowest. -/
def words : Nat → SplitMix → Nat × SplitMix
  | 0, g => (0, g)
  | n + 1, g =>
    let (w, g) := g.word
    let (high, g) := words n g
    (w.toNat + UInt64.size * high, g)

instance : Source SplitMix where
  next k g :=
    let (v, g) := words ((k + 63) / 64) g
    (v % (1 <<< k), g)

end SplitMix

end MultisetRecovery

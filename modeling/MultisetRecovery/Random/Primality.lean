import MultisetRecovery.Random.Sampler
import MultisetRecovery.Residue

/-!
# Random primes

The Miller–Rabin test, and primes drawn with it. A candidate without a small prime factor is written
`2 ^ s * d + 1` with `d` odd. A base passes if its power `d` is `1`, or if it becomes `-1` within `s
- 1` squarings. All bases pass for a prime; for a composite candidate at most a quarter of them
does, so each random base that is tried makes a wrong answer four times less likely.
-/

namespace MultisetRecovery

/-- The primes that candidates are divided by first. -/
def smallPrimes : List Nat := [2, 3, 5, 7, 11, 13, 17, 19, 23, 29, 31, 37]

namespace Primality

/-- The number of times that two divides a positive number, and the odd number that is left. -/
def oddPart (n : Nat) : Nat × Nat :=
  if _h : 0 < n ∧ n % 2 = 0 then
    let (s, d) := oddPart (n / 2)
    (s + 1, d)
  else (0, n)
termination_by n
decreasing_by omega

/-- Whether `x` becomes `-1` after one or more, and at most so many, squarings. -/
def reachesMinusOne {m : Modulus} : Nat → Residue m → Bool
  | 0, _ => false
  | k + 1, x =>
    let y := x * x
    if y = -1 then true else reachesMinusOne k y

/-- Whether a base passes the test for the modulus. -/
def passes {m : Modulus} (a : Residue m) : Bool :=
  let (s, d) := oddPart (m.value - 1)
  let x := a ^ d
  x = 1 || x = -1 || reachesMinusOne (s - 1) x

variable {σ : Type} [Source σ]

/-- Whether so many random bases pass. The first that does not ends the test. -/
def allPass (m : Modulus) : Nat → Sampler σ → Except DrawError Bool × Sampler σ
  | 0, s => (.ok true, s)
  | rounds + 1, s =>
    match s.between 2 (m.value - 1) with
    | (.error e, s) => (.error e, s)
    | (.ok a, s) => if passes (Residue.ofNat m a) then allPass m rounds s else (.ok false, s)

end Primality

variable {σ : Type} [Source σ]

/-- Whether a candidate has no small factor and passes the test with so many random bases. -/
def isProbablePrime (candidate rounds : Int) (s : Sampler σ) : Except DrawError Bool × Sampler σ :=
  if h : 2 ≤ candidate.toNat then
    match smallPrimes.find? (candidate.toNat % · = 0) with
    | some q => (.ok (candidate.toNat = q), s)
    | none => Primality.allPass ⟨candidate.toNat, h⟩ rounds.toNat s
  else (.ok false, s)

/-- The number of bases that are tried unless told otherwise. -/
def defaultRounds : Int := 32

/-- Why no prime was drawn. -/
inductive PrimeError where
  /-- There is no prime of one bit or less. -/
  | tooFewBits
  /-- No candidate passed before the limit on their number was reached. -/
  | notFound
  /-- A draw was undefined. -/
  | draw (cause : DrawError)
deriving DecidableEq

namespace PrimeError

/-- The text that reports an error. -/
def message : PrimeError → String
  | tooFewBits => "bits must be at least 2"
  | notFound => "no prime found"
  | draw e => e.message

end PrimeError

namespace Primality

/-- The first candidate to pass, of odd numbers with exactly `bits` bits. The limit on their number
ends the search over sources that give nothing but composite candidates. -/
def firstPrime (bits : Nat) : (limit : Nat) → Sampler σ → Except PrimeError Nat × Sampler σ
  | 0, s => (.error .notFound, s)
  | limit + 1, s =>
    let (v, s) := s.bits bits
    let candidate := v ||| (1 <<< (bits - 1)) ||| 1
    match isProbablePrime candidate defaultRounds s with
    | (.error e, s) => (.error (.draw e), s)
    | (.ok true, s) => (.ok candidate, s)
    | (.ok false, s) => firstPrime bits limit s

/-- The limit on the number of candidates. A seeded source comes nowhere near it. -/
def candidateLimit : Nat := 1 <<< 60

end Primality

/-- A random prime with exactly so many bits. -/
def randomPrime (bits : Int) (s : Sampler σ) : Except PrimeError Nat × Sampler σ :=
  if bits < 2 then (.error .tooFewBits, s)
  else if bits = 2 then
    match s.choose [2, 3] with
    | (.error e, s) => (.error (.draw e), s)
    | (.ok q, s) => (.ok q, s)
  else Primality.firstPrime bits.toNat Primality.candidateLimit s

end MultisetRecovery

import MultisetRecovery.Hex
import MultisetRecovery.Random.Primality
import MultisetRecovery.SymmetricFunction

/-!
# Instances

An instance is a problem together with its solution: a modulus, messages and their power sums, and
the message that the caller claims. Random instances have a solution by construction.
-/

namespace MultisetRecovery

/-- A problem together with its solution. -/
structure Instance where
  /-- The modulus. -/
  modulus : Int
  /-- The messages. -/
  messages : List Int
  /-- The power sums of the messages. -/
  sums : List Int
  /-- The caller's own message. -/
  message : Int
deriving DecidableEq

/-- Why no instance was drawn. -/
inductive InstanceError where
  /-- There is no prime for it. -/
  | prime (cause : PrimeError)
  /-- The modulus is no modulus. -/
  | modulus (cause : ArithmeticError)
  /-- There is no message that the caller could claim. -/
  | draw (cause : DrawError)
deriving DecidableEq

namespace InstanceError

/-- The text that reports an error. -/
def message : InstanceError → String
  | prime e => e.message
  | modulus e => e.message
  | draw e => e.message

end InstanceError

namespace Instance

/-- The number of messages. -/
def size (i : Instance) : Nat := i.messages.length

/-- The written form: modulus, own message and power sums in hexadecimal digits, one to a line. -/
def text (i : Instance) : String :=
  let values := i.modulus :: i.message :: i.sums
  String.join (values.map fun v => Hex.encodeInt v ++ "\n")

variable {σ : Type} [Source σ]

/-- So many random residues. -/
def randomResidues (m : Modulus) : Nat → Sampler σ → List (Residue m) × Sampler σ
  | 0, s => ([], s)
  | n + 1, s =>
    let (v, s) := s.below m.value
    let (rest, s) := randomResidues m n s
    (Residue.ofNat m v :: rest, s)

/-- An instance with random messages. -/
def randomOver (m : Modulus) (n : Int) (s : Sampler σ) :
    Except InstanceError Instance × Sampler σ :=
  let (messages, s) := randomResidues m n.toNat s
  match s.choose messages with
  | (.error e, s) => (.error (.draw e), s)
  | (.ok own, s) =>
    let sums := powerSums messages messages.length
    (.ok ⟨m.value, messages.map (·.val), sums.map (·.val), own.val⟩, s)

/-- An instance over a given modulus, if that is one. -/
def randomOverInt (modulus n : Int) (s : Sampler σ) : Except InstanceError Instance × Sampler σ :=
  match Modulus.ofInt modulus with
  | .error e => (.error (.modulus e), s)
  | .ok m => randomOver m n s

/-- An instance over a random prime with exactly so many bits. -/
def random (bits n : Int) (s : Sampler σ) : Except InstanceError Instance × Sampler σ :=
  match randomPrime bits s with
  | (.error e, s) => (.error (.prime e), s)
  | (.ok p, s) => randomOverInt p n s

end Instance

end MultisetRecovery

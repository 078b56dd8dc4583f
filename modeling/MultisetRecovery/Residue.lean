/-!
# Residues modulo an integer

The ring of residues modulo `m`, for any `m ≥ 2`. A residue is stored as its least representative,
so two residues are equal exactly when their representatives are. Nothing here asks for a prime
modulus: over a composite one `Residue.inverse` fails on the zero divisors, and names the common
factor that it met.

The inverse comes from the extended Euclidean algorithm. `Residue.euclid` keeps the signed
coefficient of the residue alone; the coefficient of the modulus is never needed.
-/

namespace MultisetRecovery

/-- A modulus. With fewer than two elements there would be no ring with `0 ≠ 1`. -/
structure Modulus where
  /-- The number of residues. -/
  value : Nat
  /-- There are two residues at least. -/
  two_le : 2 ≤ value
deriving DecidableEq

/-- A residue modulo `m`, as its least representative. -/
structure Residue (m : Modulus) where
  /-- The representative. -/
  val : Nat
  /-- The representative is the least one. -/
  val_lt : val < m.value
deriving DecidableEq

/-- The ways in which arithmetic on residues and on polynomials over them can be undefined. -/
inductive ArithmeticError where
  /-- No modulus is below two. -/
  | modulusTooSmall
  /-- Zero has no inverse. -/
  | invertZero
  /-- A batch of residues to invert holds zero at this position. -/
  | invertZeroAt (position : Nat)
  /-- The residue shares this factor with the modulus. -/
  | notInvertible (factor : Nat)
  /-- Operands over two different moduli. -/
  | modulusMismatch (left right : Modulus)
  /-- Division by the zero polynomial. -/
  | divisionByZero
  /-- The zero polynomial cannot be scaled to leading coefficient one. -/
  | zeroNotMonic
  /-- Every residue is a root of the zero polynomial, so its roots cannot be counted. -/
  | zeroHasEveryRoot
  /-- Powers modulo a polynomial are taken for natural exponents only. -/
  | negativeExponent
deriving DecidableEq

namespace Modulus

/-- The modulus with this value, if there is one. -/
def ofInt (v : Int) : Except ArithmeticError Modulus :=
  if h : 2 ≤ v.toNat then .ok ⟨v.toNat, h⟩ else .error .modulusTooSmall

theorem value_pos (m : Modulus) : 0 < m.value := Nat.lt_of_lt_of_le (by decide) m.two_le

theorem one_lt_value (m : Modulus) : 1 < m.value := m.two_le

/-- The written form of a ring of residues. -/
def text (m : Modulus) : String := "PrimeField(" ++ toString m.value ++ ")"

/-- The exponent of Euler's criterion: over an odd prime, `x` to this power is one exactly when `x`
is a non-zero square. -/
def eulerExponent (m : Modulus) : Nat := (m.value - 1) / 2

/-- The number of binary digits of the modulus. -/
def bitLength (m : Modulus) : Nat := m.value.log2 + 1

/-- The least representatives are the integers from zero up to, and not including, the modulus. -/
def IsCanonical (m : Modulus) (v : Int) : Prop := 0 ≤ v ∧ v < m.value

instance (m : Modulus) (v : Int) : Decidable (m.IsCanonical v) :=
  inferInstanceAs (Decidable (0 ≤ v ∧ v < m.value))

end Modulus

namespace ArithmeticError

/-- The text that reports an error. -/
def message : ArithmeticError → String
  | modulusTooSmall => "Prime must be at least 2"
  | invertZero => "Cannot invert zero"
  | invertZeroAt i => "Cannot invert zero (element " ++ toString i ++ ")"
  | notInvertible g => "No inverse exists (gcd = " ++ toString g ++ ")"
  | modulusMismatch a b => "Field mismatch: " ++ a.text ++ " vs " ++ b.text
  | divisionByZero => "Polynomial division by zero"
  | zeroNotMonic => "The zero polynomial has no monic associate"
  | zeroHasEveryRoot => "The zero polynomial has every element as a root"
  | negativeExponent => "Negative exponents are not supported"

end ArithmeticError

namespace Residue

variable {m : Modulus}

@[ext]
theorem ext {a b : Residue m} (h : a.val = b.val) : a = b := by
  cases a; cases b; cases h; rfl

/-- The residue of a natural number. -/
def ofNat (m : Modulus) (n : Nat) : Residue m := ⟨n % m.value, Nat.mod_lt _ m.value_pos⟩

/-- The residue of an integer. -/
def ofInt (m : Modulus) (v : Int) : Residue m :=
  ⟨(v % m.value).toNat, by
    have h := m.value_pos
    have h₀ := Int.emod_nonneg v (b := m.value) (by omega)
    have h₁ := Int.emod_lt_of_pos v (b := m.value) (by omega)
    omega⟩

instance : Zero (Residue m) := ⟨⟨0, m.value_pos⟩⟩

instance : One (Residue m) := ⟨⟨1, m.one_lt_value⟩⟩

instance : Add (Residue m) := ⟨fun a b => ofNat m (a.val + b.val)⟩

instance : Mul (Residue m) := ⟨fun a b => ofNat m (a.val * b.val)⟩

instance : Neg (Residue m) := ⟨fun a => ofNat m (m.value - a.val)⟩

instance : Sub (Residue m) := ⟨fun a b => ofNat m (a.val + (m.value - b.val))⟩

/-- `c * x + y`, reduced once. -/
def mulAdd (c x y : Residue m) : Residue m := ofNat m (c.val * x.val + y.val)

/-- The representative is the whole of a residue. -/
theorem val_inj {a b : Residue m} : a.val = b.val ↔ a = b := ⟨ext, congrArg val⟩

@[simp]
theorem val_ofNat (n : Nat) : (ofNat m n).val = n % m.value := rfl

@[simp]
theorem val_zero : (0 : Residue m).val = 0 := rfl

@[simp]
theorem val_one : (1 : Residue m).val = 1 := rfl

@[simp]
theorem val_add (a b : Residue m) : (a + b).val = (a.val + b.val) % m.value := rfl

@[simp]
theorem val_mul (a b : Residue m) : (a * b).val = a.val * b.val % m.value := rfl

@[simp]
theorem val_neg (a : Residue m) : (-a).val = (m.value - a.val) % m.value := rfl

@[simp]
theorem val_sub (a b : Residue m) : (a - b).val = (a.val + (m.value - b.val)) % m.value := rfl

@[simp]
theorem val_mulAdd (c x y : Residue m) :
    (mulAdd c x y).val = (c.val * x.val + y.val) % m.value := rfl

theorem val_ofInt (v : Int) : ((ofInt m v).val : Int) = v % m.value :=
  Int.toNat_of_nonneg (Int.emod_nonneg v (by have := m.value_pos; omega))

/-- The accumulator of repeated squaring holds `acc * x ^ k`. -/
def powFrom (acc x : Residue m) (k : Nat) : Residue m :=
  if k = 0 then acc
  else powFrom (if k % 2 = 1 then acc * x else acc) (x * x) (k / 2)
termination_by k

/-- Powers by repeated squaring. -/
def pow (x : Residue m) (k : Nat) : Residue m := powFrom 1 x k

instance : NatPow (Residue m) := ⟨pow⟩

/-- One run of the Euclidean algorithm on `r` and `r'`, carrying coefficients `s` and `s'` through
the same steps. It ends with the greatest common divisor and the coefficient that belongs to it. -/
def euclid (r : Nat) (s : Int) (r' : Nat) (s' : Int) : Nat × Int :=
  if r' = 0 then (r, s)
  else euclid r' s' (r % r') (s - (r / r' : Nat) * s')
termination_by r'
decreasing_by exact Nat.mod_lt _ (by omega)

/-- The multiplicative inverse. It exists exactly for the residues coprime to the modulus. -/
def inverse (a : Residue m) : Except ArithmeticError (Residue m) :=
  if a.val = 0 then .error .invertZero
  else
    let (g, s) := euclid a.val 1 m.value 0
    if g = 1 then .ok (ofInt m s) else .error (.notInvertible g)

/-- The written form of a residue. -/
def text (a : Residue m) : String :=
  "FieldElement(" ++ toString a.val ++ ", mod " ++ toString m.value ++ ")"

end Residue

end MultisetRecovery

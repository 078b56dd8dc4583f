import MultisetRecovery.Poly.Power
import MultisetRecovery.Poly.Printer
import MultisetRecovery.Residue.Batch

/-!
# Values that carry their modulus

Residues and polynomials whose moduli are only known at run time. An operation on two polynomials
asks that their moduli agree and fails otherwise. An operation on two residues takes the modulus of
the first, and reads the others as integers.
-/

namespace MultisetRecovery

/-- A residue together with its modulus. -/
structure TaggedResidue where
  /-- The modulus. -/
  modulus : Modulus
  /-- The residue. -/
  residue : Residue modulus
deriving DecidableEq

namespace TaggedResidue

/-- The residue of an integer. -/
def ofInt (m : Modulus) (v : Int) : TaggedResidue := ⟨m, .ofInt m v⟩

/-- The same representative, reduced modulo `m`. -/
def cast (m : Modulus) (a : TaggedResidue) : Residue m := .ofNat m a.residue.val

/-- The product modulo the first modulus. -/
def mul (a b : TaggedResidue) : TaggedResidue := ⟨a.modulus, a.residue * b.cast a.modulus⟩

/-- The inverse modulo the residue's own modulus. -/
def inverse (a : TaggedResidue) : Except ArithmeticError TaggedResidue := do
  return ⟨a.modulus, ← a.residue.inverse⟩

/-- The inverses of all entries modulo the modulus of the first. Zero is looked for under each
entry's own modulus. -/
def invertAll (as : List TaggedResidue) : Except ArithmeticError (List TaggedResidue) :=
  match as with
  | [] => .ok []
  | a :: _ =>
    match as.findIdx? (·.residue.val = 0) with
    | some i => .error (.invertZeroAt i)
    | none => do
      let inverses ← Residue.invertProduct (as.map (cast a.modulus))
      return inverses.map (⟨a.modulus, ·⟩)

end TaggedResidue

/-- A polynomial together with its modulus. -/
structure TaggedPoly where
  /-- The modulus. -/
  modulus : Modulus
  /-- The polynomial. -/
  poly : Poly modulus
deriving DecidableEq

namespace TaggedPoly

/-- The second polynomial over the modulus of the first, if that is its own. -/
def matching (a b : TaggedPoly) : Except ArithmeticError (Poly a.modulus) :=
  if h : b.modulus = a.modulus then .ok (h ▸ b.poly)
  else .error (.modulusMismatch a.modulus b.modulus)

/-- The sum. -/
def add (a b : TaggedPoly) : Except ArithmeticError TaggedPoly := do
  return ⟨a.modulus, a.poly + (← a.matching b)⟩

/-- The difference. -/
def sub (a b : TaggedPoly) : Except ArithmeticError TaggedPoly := do
  return ⟨a.modulus, a.poly - (← a.matching b)⟩

/-- The product. -/
def mul (a b : TaggedPoly) : Except ArithmeticError TaggedPoly := do
  return ⟨a.modulus, a.poly * (← a.matching b)⟩

/-- Quotient and remainder. -/
def divMod (a d : TaggedPoly) : Except ArithmeticError (TaggedPoly × TaggedPoly) := do
  let (q, r) ← a.poly.divMod (← a.matching d)
  return (⟨a.modulus, q⟩, ⟨a.modulus, r⟩)

/-- A power modulo a polynomial. A negative exponent is refused before the moduli are compared. -/
def powMod (a : TaggedPoly) (k : Int) (f : TaggedPoly) : Except ArithmeticError TaggedPoly := do
  if k < 0 then throw .negativeExponent
  return ⟨a.modulus, ← a.poly.powMod k.toNat (← a.matching f)⟩

/-- The monic greatest common divisor. With zero as second operand no division takes place, and the
moduli are not compared. -/
def gcd (a b : TaggedPoly) : Except ArithmeticError TaggedPoly :=
  if b.poly.isZero then do return ⟨a.modulus, ← a.poly.gcd 0⟩
  else do return ⟨a.modulus, ← a.poly.gcd (← a.matching b)⟩

end TaggedPoly

end MultisetRecovery

import MultisetRecovery.Residue

/-!
# Polynomials over a ring of residues

A polynomial is the list of its coefficients, lowest first, without a zero at the end. The form is
canonical: equal polynomials have equal lists, and the zero polynomial is the empty one. Every
operation ends in `Poly.ofCoeffs`, which strips the zeros at the end; over a composite modulus the
product of two leading coefficients can vanish, so no operation may skip that step.
-/

namespace MultisetRecovery

/-- A polynomial over the residues modulo `m`. -/
structure Poly (m : Modulus) where
  /-- The coefficients, that of `x ^ i` at position `i`. -/
  coeffs : List (Residue m)
  /-- The leading coefficient is not zero. -/
  getLast?_ne : coeffs.getLast? ≠ some 0
deriving DecidableEq

namespace Poly

variable {m : Modulus}

/-- A coefficient list without the zeros at its end. -/
def trim : List (Residue m) → List (Residue m)
  | [] => []
  | c :: cs =>
    match trim cs with
    | [] => if c = 0 then [] else [c]
    | d :: ds => c :: d :: ds

theorem getLast?_trim_ne (cs : List (Residue m)) : (trim cs).getLast? ≠ some 0 := by
  induction cs with
  | nil => simp [trim]
  | cons c cs ih =>
    unfold trim
    split
    · split <;> simp_all
    · rename_i d ds h
      rw [List.getLast?_cons_cons, ← h]
      exact ih

theorem length_trim_le (cs : List (Residue m)) : (trim cs).length ≤ cs.length := by
  induction cs with
  | nil => simp [trim]
  | cons c cs ih =>
    unfold trim
    split
    · split <;> simp
    · rename_i d ds h
      rw [h] at ih
      simpa using ih

/-- The polynomial with these coefficients, lowest first. -/
def ofCoeffs (cs : List (Residue m)) : Poly m := ⟨trim cs, getLast?_trim_ne cs⟩

@[simp]
theorem coeffs_ofCoeffs (cs : List (Residue m)) : (ofCoeffs cs).coeffs = trim cs := rfl

@[ext]
theorem ext {a b : Poly m} (h : a.coeffs = b.coeffs) : a = b := by
  cases a; cases b; cases h; rfl

/-- The polynomial with these integers as coefficients. -/
def ofInts (m : Modulus) (vs : List Int) : Poly m := ofCoeffs (vs.map (Residue.ofInt m))

/-- The number of coefficients: one more than the degree. -/
def size (f : Poly m) : Nat := f.coeffs.length

/-- The degree; that of the zero polynomial is `-1`. -/
def degree (f : Poly m) : Int := f.size - 1

theorem size_ofCoeffs_le (cs : List (Residue m)) : (ofCoeffs cs).size ≤ cs.length :=
  length_trim_le cs

/-- The coefficient of `x ^ i`. -/
def coeff (f : Poly m) (i : Nat) : Residue m := f.coeffs.getD i 0

/-- The leading coefficient; that of the zero polynomial is zero. -/
def lead (f : Poly m) : Residue m := f.coeffs.getLast?.getD 0

/-- Whether there are no coefficients. -/
def isZero (f : Poly m) : Bool := f.coeffs.isEmpty

/-- Whether the leading coefficient is one. -/
def isMonic (f : Poly m) : Bool := f.lead = 1

instance : Zero (Poly m) := ⟨⟨[], by simp⟩⟩

instance : One (Poly m) := ⟨ofCoeffs [1]⟩

/-- A constant polynomial. -/
def const (c : Residue m) : Poly m := ofCoeffs [c]

/-- The variable. -/
def X : Poly m := ofCoeffs [0, 1]

/-- The sum of two coefficient lists, the shorter one continued by zeros. -/
def addCoeffs : List (Residue m) → List (Residue m) → List (Residue m)
  | [], bs => bs
  | as, [] => as
  | a :: as, b :: bs => (a + b) :: addCoeffs as bs

/-- The coefficient list of `c * b + a`. -/
def mulAddCoeffs (c : Residue m) : List (Residue m) → List (Residue m) → List (Residue m)
  | [], as => as
  | b :: bs, [] => c * b :: mulAddCoeffs c bs []
  | b :: bs, a :: as => Residue.mulAdd c b a :: mulAddCoeffs c bs as

/-- The coefficient list of a product: `(c + x * a) * b` is `c * b + x * (a * b)`. -/
def mulCoeffs : List (Residue m) → List (Residue m) → List (Residue m)
  | [], _ => []
  | c :: as, bs => mulAddCoeffs c bs (0 :: mulCoeffs as bs)

instance : Add (Poly m) := ⟨fun a b => ofCoeffs (addCoeffs a.coeffs b.coeffs)⟩

instance : Neg (Poly m) := ⟨fun a => ofCoeffs (a.coeffs.map (-·))⟩

instance : Sub (Poly m) := ⟨fun a b => a + -b⟩

instance : Mul (Poly m) := ⟨fun a b => ofCoeffs (mulCoeffs a.coeffs b.coeffs)⟩

/-- The product with a constant. -/
def scale (f : Poly m) (c : Residue m) : Poly m := ofCoeffs (f.coeffs.map (· * c))

/-- The linear polynomial `x - r`. -/
def linear (r : Residue m) : Poly m := ofCoeffs [-r, 1]

/-- The monic polynomial with these roots, each as often as it is listed. -/
def ofRoots (rs : List (Residue m)) : Poly m := rs.foldl (fun f r => f * linear r) 1

/-- The value at `x`, from the highest coefficient down. -/
def eval (f : Poly m) (x : Residue m) : Residue m :=
  f.coeffs.foldr (fun c acc => Residue.mulAdd acc x c) 0

end Poly

end MultisetRecovery

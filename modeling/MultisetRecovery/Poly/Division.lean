import MultisetRecovery.Poly.Basic

/-!
# Division of polynomials

Long division, division by a linear polynomial, the monic associate and the monic greatest common
divisor. All of them divide by leading coefficients, so over a composite modulus each can fail with
the factor that a leading coefficient shares with the modulus; over a prime modulus only division by
zero is undefined.

Long division runs from the constant coefficient: to divide `c + x * a`, divide `a` first, and then
take one more multiple of the divisor from `c + x * r`. The remainders on the way are kept as lists
of one fixed length, that of the divisor without its leading coefficient.
-/

namespace MultisetRecovery.Poly

variable {m : Modulus}

/-- Long division by the polynomial with coefficients `low`, then a leading coefficient with inverse
`inv`. The dividend has the coefficients `cs`, then those of `top`; `top` is as long as `low` and is
the remainder that the division starts with. The result is quotient and remainder. -/
def divCoeffs (inv : Residue m) (low top : List (Residue m)) :
    List (Residue m) → List (Residue m) × List (Residue m)
  | [] => ([], top)
  | c :: cs =>
    let (q, r) := divCoeffs inv low top cs
    let k := (c :: r).getLast (by simp) * inv
    (k :: q, List.zipWith (Residue.mulAdd (-k)) low (c :: r))

theorem length_divCoeffs_fst (inv : Residue m) (low top cs : List (Residue m)) :
    (divCoeffs inv low top cs).1.length = cs.length := by
  induction cs with
  | nil => rfl
  | cons c cs ih => simp [divCoeffs, ih]

theorem length_divCoeffs_snd (inv : Residue m) (low top cs : List (Residue m))
    (h : top.length = low.length) : (divCoeffs inv low top cs).2.length = low.length := by
  induction cs with
  | nil => exact h
  | cons c cs ih => simp [divCoeffs, ih]

/-- Quotient and remainder. A dividend of smaller degree is its own remainder, whatever the leading
coefficient of the divisor. -/
def divMod (a d : Poly m) : Except ArithmeticError (Poly m × Poly m) :=
  if d.isZero then .error .divisionByZero
  else if a.size < d.size then .ok (0, a)
  else do
    let inv ← d.lead.inverse
    let k := a.size - (d.size - 1)
    let (q, r) := divCoeffs inv d.coeffs.dropLast (a.coeffs.drop k) (a.coeffs.take k)
    return (ofCoeffs q, ofCoeffs r)

/-- The quotient of a division. -/
def div (a d : Poly m) : Except ArithmeticError (Poly m) := do return (← a.divMod d).1

/-- The remainder of a division. -/
def mod (a d : Poly m) : Except ArithmeticError (Poly m) := do return (← a.divMod d).2

theorem size_pos_of_isZero_eq_false {d : Poly m} (h : d.isZero = false) : 0 < d.size := by
  simp only [isZero, List.isEmpty_eq_false_iff] at h
  exact List.length_pos_iff.2 h

/-- A remainder is smaller than the divisor. -/
theorem size_snd_lt_of_divMod {a d : Poly m} {qr : Poly m × Poly m} (h : a.divMod d = .ok qr) :
    qr.2.size < d.size := by
  unfold divMod at h
  split at h
  · simp at h
  rename_i hd
  have hpos := size_pos_of_isZero_eq_false (by simpa using hd)
  split at h
  · cases h; assumption
  rename_i ha
  cases hi : d.lead.inverse with
  | error e => simp [hi, bind, Except.bind] at h
  | ok inv =>
    simp only [hi, bind, Except.bind, pure, Except.pure, Except.ok.injEq] at h
    subst h
    refine Nat.lt_of_le_of_lt (size_ofCoeffs_le _) ?_
    rw [length_divCoeffs_snd]
    · rw [List.length_dropLast]; unfold size at hpos ⊢; omega
    · rw [List.length_drop, List.length_dropLast]; unfold size at *; omega

/-- A quotient is smaller than the dividend by the degree of the divisor. -/
theorem size_fst_le_of_divMod {a d : Poly m} {qr : Poly m × Poly m} (h : a.divMod d = .ok qr) :
    qr.1.size ≤ a.size - (d.size - 1) := by
  unfold divMod at h
  split at h
  · simp at h
  split at h
  · cases h; exact Nat.zero_le _
  cases hi : d.lead.inverse with
  | error e => simp [hi, bind, Except.bind] at h
  | ok inv =>
    simp only [hi, bind, Except.bind, pure, Except.pure, Except.ok.injEq] at h
    subst h
    refine Nat.le_trans (size_ofCoeffs_le _) ?_
    rw [length_divCoeffs_fst, List.length_take]
    omega

/-- The multiple with leading coefficient one. -/
def monic (f : Poly m) : Except ArithmeticError (Poly m) :=
  if f.isZero then .error .zeroNotMonic
  else if f.isMonic then .ok f
  else do return f.scale (← f.lead.inverse)

/-- The greatest common divisor by Euclid's algorithm, made monic; that of two zeros is zero. -/
def gcd (a b : Poly m) : Except ArithmeticError (Poly m) :=
  if b.isZero then
    if a.isZero then .ok a else a.monic
  else
    match _h : a.divMod b with
    | .error e => .error e
    | .ok qr => gcd b qr.2
termination_by b.size
decreasing_by exact size_snd_lt_of_divMod _h

/-- The values at `r` of the polynomials that are left when coefficients are taken from the low end:
first of the whole, then without the constant coefficient, and so on. -/
def tailValues (r : Residue m) : List (Residue m) → List (Residue m)
  | [] => []
  | c :: cs =>
    let vs := tailValues r cs
    Residue.mulAdd (vs.headD 0) r c :: vs

@[simp]
theorem length_tailValues (r : Residue m) (cs : List (Residue m)) :
    (tailValues r cs).length = cs.length := by
  induction cs with
  | nil => rfl
  | cons c cs ih => simp [tailValues, ih]

/-- Quotient and remainder of the division by `x - r`, which needs no inverse. If `a` is `(x - r) *
q + s` then `c + x * a` is `(x - r) * (s + x * q) + (c + s * r)`: the remainder is the first tail
value, and the others are the coefficients of the quotient. -/
def deflate (f : Poly m) (r : Residue m) : Poly m × Residue m :=
  let vs := tailValues r f.coeffs
  (ofCoeffs vs.tail, vs.headD 0)

theorem size_deflate_le (f : Poly m) (r : Residue m) : (f.deflate r).1.size ≤ f.size - 1 := by
  refine Nat.le_trans (size_ofCoeffs_le _) ?_
  rw [List.length_tail, length_tailValues]
  exact Nat.le_refl _

end MultisetRecovery.Poly

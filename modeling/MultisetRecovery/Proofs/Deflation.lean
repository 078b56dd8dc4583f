import MultisetRecovery.Proofs.Division

/-!
# Division by a linear polynomial

To divide by `x - r` is to evaluate at `r` and to keep the values on the way. Over any modulus this
gives what long division by `x - r` gives, with the value at `r` for the constant that is left
(`deflate_divides`).
-/

open Polynomial

namespace MultisetRecovery.Poly

variable {m : Modulus}

/-! ## The divisor -/

theorem linear_ofInt (root : ℤ) : linear (Residue.ofInt m root) = ofInts m [-root, 1] := by
  apply toPolynomial_injective
  rw [toPolynomial_linear, ofInts, toPolynomial_ofCoeffs, List.map_cons, List.map_cons,
    List.map_nil, coeffPolynomial_cons, coeffPolynomial_cons, coeffPolynomial_nil]
  rw [Residue.toZMod_ofInt, Residue.toZMod_ofInt, Residue.toZMod_ofInt, Int.cast_neg, Int.cast_one,
    C_neg, C_1]
  ring

theorem monic_linear (r : Residue m) : (linear r).toPolynomial.Monic := by
  rw [toPolynomial_linear]
  exact monic_X_sub_C r.toZMod

theorem size_linear (r : Residue m) : (linear r).size = 2 := by
  rw [size_eq (monic_linear r).ne_zero, toPolynomial_linear, natDegree_X_sub_C]

theorem size_const_lt (c : Residue m) : (const c).size < 2 :=
  (size_ofCoeffs_le [c]).trans_lt Nat.one_lt_two

/-! ## Values -/

/-- The value at an integer is that of the polynomial over the integers, reduced. -/
theorem val_eval_ofInt (f : Poly m) (x : ℤ) :
    ((f.eval (Residue.ofInt m x)).val : ℤ) =
      (∑ i ∈ Finset.range f.size, ((f.coeff i).val : ℤ) * x ^ i) % m.value := by
  rw [← Residue.val_ofInt, Nat.cast_inj, Residue.val_inj]
  apply Residue.toZMod_injective
  rw [toZMod_eval, Residue.toZMod_ofInt, Residue.toZMod_ofInt]
  -- The sum may run past the degree, so the zero polynomial needs no case of its own.
  have hsize : f.toPolynomial.natDegree < f.size + 1 := by
    rw [natDegree_toPolynomial]
    omega
  have hlast : f.toPolynomial.coeff f.size = 0 :=
    (degree_lt_iff_coeff_zero _ _).mp f.degree_toPolynomial_lt f.size le_rfl
  rw [eval_eq_sum_range' hsize, Finset.sum_range_succ, hlast, zero_mul, add_zero]
  push_cast
  exact Finset.sum_congr rfl fun i _ => by rw [← toZMod_coeff, Residue.toZMod]

/-! ## Quotient and remainder -/

theorem eq_linear_mul_deflate (f : Poly m) (r : Residue m) :
    f = linear r * (f.deflate r).1 + const (f.deflate r).2 := by
  apply toPolynomial_injective
  rw [toPolynomial_add, toPolynomial_mul, toPolynomial_linear, toPolynomial_const]
  exact eq_mul_add_deflate f r

theorem divMod_linear (f : Poly m) (r : Residue m) :
    f.divMod (linear r) = .ok ((f.deflate r).1, const (f.deflate r).2) := by
  refine divMod_unique (isUnit_lead_of_monic (monic_linear r)) ?_ ?_
  · rw [mul_comm, ← toPolynomial_mul, ← toPolynomial_add, ← eq_linear_mul_deflate]
  · rw [size_linear]
    exact size_const_lt _

/-- A polynomial that is not constant loses one degree. -/
theorem degree_deflate {f : Poly m} (hf : 1 ≤ f.degree) (r : Residue m) :
    (f.deflate r).1.degree = f.degree - 1 := by
  have hsize : (linear r).size ≤ f.size := by
    rw [size_linear]
    unfold degree at hf
    omega
  have hsum := degree_eq_add_of_divMod (isUnit_lead_of_monic (monic_linear r)) hsize
    (divMod_linear f r)
  have hone : (linear r).degree = 1 := by
    rw [degree, size_linear]
    rfl
  omega

theorem deflate_eq_zero {f : Poly m} (hf : f.degree < 1) (r : Residue m) :
    (f.deflate r).1 = 0 := by
  have hle := size_deflate_le f r
  rw [← toPolynomial_eq_zero_iff, ← size_eq_zero_iff]
  unfold degree at hf
  omega

/-- Over any modulus and for any integer `root`, reduced or not, what division by `x - root` leaves
is the value at `root`, and quotient and remainder are those of long division. -/
theorem deflate_divides (m : Modulus) (f : Poly m) (root : ℤ) :
    let r := Residue.ofInt m root
    let q := (f.deflate r).1
    let s := (f.deflate r).2
    let d := ofInts m [-root, 1]
    m.IsCanonical s.val ∧ f = d * q + const s ∧ s = f.eval r ∧
      (s.val : ℤ) = (∑ i ∈ Finset.range f.size, ((f.coeff i).val : ℤ) * root ^ i) % m.value ∧
      (1 ≤ f.degree → q.degree = f.degree - 1) ∧ (f.degree < 1 → q = 0) ∧
      f.divMod d = .ok (q, const s) := by
  intro r q s d
  have hd : d = linear r := (linear_ofInt root).symm
  have hs : s = f.eval r := deflate_snd f r
  rw [hd]
  refine ⟨⟨Int.natCast_nonneg _, Int.ofNat_lt.mpr s.val_lt⟩, eq_linear_mul_deflate f r, hs, ?_,
    fun hf => degree_deflate hf r, fun hf => deflate_eq_zero hf r, divMod_linear f r⟩
  rw [hs]
  exact val_eval_ofInt f root

/-- Modulo six, `2 * x ^ 2 + 5 * x + 1` divided by `x + 5` leaves its value at `-5`, which is that
at one. -/
theorem deflate_divides_six :
    let m : Modulus := ⟨6, by decide⟩
    let f := ofInts m [1, 5, 2]
    f.deflate (Residue.ofInt m (-5)) = (ofInts m [1, 2], Residue.ofInt m 2) ∧
      (ofInts m [1, 2]).degree = f.degree - 1 ∧
      f.divMod (ofInts m [5, 1]) = .ok (ofInts m [1, 2], ofInts m [2]) ∧
      (f.deflate (Residue.ofInt m 19)).2 = f.eval 1 := by
  intro m f
  have hrun : f.deflate (Residue.ofInt m (-5)) = (ofInts m [1, 2], Residue.ofInt m 2) := by
    decide +kernel
  obtain ⟨-, -, -, -, hdegree, -, hdiv⟩ := deflate_divides m f (-5)
  obtain ⟨-, -, hvalue, -⟩ := deflate_divides m f 19
  rw [hrun] at hdegree hdiv
  refine ⟨hrun, hdegree (by decide), hdiv, ?_⟩
  have hone : Residue.ofInt m 19 = 1 := by decide
  rwa [hone] at hvalue ⊢

end MultisetRecovery.Poly

import Mathlib.Algebra.Polynomial.BigOperators
import Mathlib.Algebra.Polynomial.Monic
import Mathlib.Data.List.GetD
import MultisetRecovery.Poly.Basic
import MultisetRecovery.Proofs.Residue

/-!
# Polynomials as elements of `(ZMod m.value)[X]`

`Poly.toPolynomial` reads a polynomial as an element of `(ZMod m.value)[X]`, and
`coeffPolynomial` does so for coefficient lists that may end in zeros. The reading is injective,
because coefficient lists are kept without zeros at their end, and carries every operation over to
the one of the ring. Sizes and leading coefficients are those of the ring element, so nothing after
this module looks at coefficient lists again, division apart.
-/

open Polynomial

namespace MultisetRecovery

variable {m : Modulus}

/-- The polynomial with these coefficients, lowest first. -/
noncomputable def coeffPolynomial : List (Residue m) → (ZMod m.value)[X]
  | [] => 0
  | c :: cs => C c.toZMod + X * coeffPolynomial cs

@[simp]
theorem coeffPolynomial_nil : coeffPolynomial ([] : List (Residue m)) = 0 := rfl

@[simp]
theorem coeffPolynomial_cons (c : Residue m) (cs : List (Residue m)) :
    coeffPolynomial (c :: cs) = C c.toZMod + X * coeffPolynomial cs := rfl

theorem coeffPolynomial_append (as bs : List (Residue m)) :
    coeffPolynomial (as ++ bs) = coeffPolynomial as + X ^ as.length * coeffPolynomial bs := by
  induction as with
  | nil => simp
  | cons a as ih =>
    rw [List.cons_append, coeffPolynomial_cons, coeffPolynomial_cons, ih, List.length_cons]
    ring

theorem coeff_coeffPolynomial (cs : List (Residue m)) (i : ℕ) :
    (coeffPolynomial cs).coeff i = (cs.getD i 0).toZMod := by
  induction cs generalizing i with
  | nil => simp
  | cons c cs ih =>
    cases i with
    | zero => simp
    | succ i => simp [ih]

theorem degree_coeffPolynomial_lt (cs : List (Residue m)) :
    (coeffPolynomial cs).degree < cs.length := by
  rw [degree_lt_iff_coeff_zero]
  intro i hi
  rw [coeff_coeffPolynomial, List.getD_eq_default _ _ hi, Residue.toZMod_zero]

@[simp]
theorem coeffPolynomial_trim (cs : List (Residue m)) :
    coeffPolynomial (Poly.trim cs) = coeffPolynomial cs := by
  induction cs with
  | nil => rfl
  | cons c cs ih =>
    rw [coeffPolynomial_cons, ← ih, Poly.trim]
    cases Poly.trim cs with
    | nil =>
      by_cases hc : c = 0
      · simp [hc]
      · simp [hc]
    | cons d ds => rfl

namespace Poly

/-! ## The operations on coefficient lists -/

@[simp]
theorem coeffPolynomial_map_neg (cs : List (Residue m)) :
    coeffPolynomial (cs.map (-·)) = -coeffPolynomial cs := by
  induction cs with
  | nil => simp
  | cons c cs ih =>
    rw [List.map_cons, coeffPolynomial_cons, ih, coeffPolynomial_cons, Residue.toZMod_neg, C_neg]
    ring

@[simp]
theorem coeffPolynomial_map_mul (cs : List (Residue m)) (k : Residue m) :
    coeffPolynomial (cs.map (· * k)) = C k.toZMod * coeffPolynomial cs := by
  induction cs with
  | nil => simp
  | cons c cs ih =>
    rw [List.map_cons, coeffPolynomial_cons, ih, coeffPolynomial_cons, Residue.toZMod_mul, C_mul]
    ring

@[simp]
theorem coeffPolynomial_addCoeffs (as bs : List (Residue m)) :
    coeffPolynomial (addCoeffs as bs) = coeffPolynomial as + coeffPolynomial bs := by
  fun_induction addCoeffs as bs with
  | case1 bs => simp
  | case2 as => simp
  | case3 a as b bs ih =>
    rw [coeffPolynomial_cons, ih, coeffPolynomial_cons, coeffPolynomial_cons, Residue.toZMod_add,
      C_add]
    ring

@[simp]
theorem coeffPolynomial_mulAddCoeffs (k : Residue m) (bs as : List (Residue m)) :
    coeffPolynomial (mulAddCoeffs k bs as) =
      C k.toZMod * coeffPolynomial bs + coeffPolynomial as := by
  fun_induction mulAddCoeffs k bs as with
  | case1 as => simp
  | case2 b bs ih =>
    rw [coeffPolynomial_cons, ih, coeffPolynomial_cons, Residue.toZMod_mul, C_mul]
    simp only [coeffPolynomial_nil]
    ring
  | case3 b bs a as ih =>
    rw [coeffPolynomial_cons, ih, coeffPolynomial_cons, coeffPolynomial_cons,
      Residue.toZMod_mulAdd, C_add, C_mul]
    ring

@[simp]
theorem coeffPolynomial_mulCoeffs (as bs : List (Residue m)) :
    coeffPolynomial (mulCoeffs as bs) = coeffPolynomial as * coeffPolynomial bs := by
  induction as with
  | nil => simp [mulCoeffs]
  | cons a as ih =>
    rw [mulCoeffs, coeffPolynomial_mulAddCoeffs, coeffPolynomial_cons, ih, coeffPolynomial_cons,
      Residue.toZMod_zero, C_0]
    ring

/-! ## The view -/

/-- The element of `(ZMod m.value)[X]` that a polynomial stands for. -/
noncomputable def toPolynomial (f : Poly m) : (ZMod m.value)[X] := coeffPolynomial f.coeffs

@[simp]
theorem toPolynomial_ofCoeffs (cs : List (Residue m)) :
    (ofCoeffs cs).toPolynomial = coeffPolynomial cs := coeffPolynomial_trim cs

@[simp]
theorem toPolynomial_zero : (0 : Poly m).toPolynomial = 0 := rfl

@[simp]
theorem toPolynomial_one : (1 : Poly m).toPolynomial = 1 := by
  show (ofCoeffs [1]).toPolynomial = 1
  simp

@[simp]
theorem toPolynomial_X : (Poly.X : Poly m).toPolynomial = Polynomial.X := by
  simp [Poly.X]

@[simp]
theorem toPolynomial_const (c : Residue m) : (const c).toPolynomial = C c.toZMod := by
  simp [const]

@[simp]
theorem toPolynomial_add (f g : Poly m) :
    (f + g).toPolynomial = f.toPolynomial + g.toPolynomial := by
  show (ofCoeffs (addCoeffs f.coeffs g.coeffs)).toPolynomial = _
  simp [toPolynomial]

@[simp]
theorem toPolynomial_neg (f : Poly m) : (-f).toPolynomial = -f.toPolynomial := by
  show (ofCoeffs (f.coeffs.map (-·))).toPolynomial = _
  simp [toPolynomial]

@[simp]
theorem toPolynomial_sub (f g : Poly m) :
    (f - g).toPolynomial = f.toPolynomial - g.toPolynomial := by
  show (f + -g).toPolynomial = _
  rw [toPolynomial_add, toPolynomial_neg, sub_eq_add_neg]

@[simp]
theorem toPolynomial_mul (f g : Poly m) :
    (f * g).toPolynomial = f.toPolynomial * g.toPolynomial := by
  show (ofCoeffs (mulCoeffs f.coeffs g.coeffs)).toPolynomial = _
  simp [toPolynomial]

@[simp]
theorem toPolynomial_scale (f : Poly m) (k : Residue m) :
    (f.scale k).toPolynomial = C k.toZMod * f.toPolynomial := by
  simp [scale, toPolynomial]

@[simp]
theorem toPolynomial_linear (r : Residue m) :
    (linear r).toPolynomial = Polynomial.X - C r.toZMod := by
  simp [linear, sub_eq_add_neg, add_comm]

/-- The polynomial of a list of roots is the product of their linear polynomials. -/
theorem toPolynomial_ofRoots (rs : List (Residue m)) :
    (ofRoots rs).toPolynomial = (rs.map fun r => Polynomial.X - C r.toZMod).prod := by
  have hfold : ∀ f : Poly m, (rs.foldl (fun f r => f * linear r) f).toPolynomial =
      f.toPolynomial * (rs.map fun r => Polynomial.X - C r.toZMod).prod := by
    induction rs with
    | nil => simp
    | cons r rs ih =>
      intro f
      rw [List.foldl_cons, ih, toPolynomial_mul, toPolynomial_linear, List.map_cons,
        List.prod_cons, mul_assoc]
  rw [ofRoots, hfold, toPolynomial_one, one_mul]

theorem monic_ofRoots (rs : List (Residue m)) : (ofRoots rs).toPolynomial.Monic := by
  rw [toPolynomial_ofRoots, ← Multiset.prod_coe, ← Multiset.map_coe]
  exact monic_multiset_prod_of_monic _ _ fun r _ => monic_X_sub_C r.toZMod

theorem toZMod_eval (f : Poly m) (x : Residue m) :
    (f.eval x).toZMod = f.toPolynomial.eval x.toZMod := by
  unfold eval toPolynomial
  induction f.coeffs with
  | nil => simp
  | cons c cs ih =>
    rw [List.foldr_cons, Residue.toZMod_mulAdd, ih, coeffPolynomial_cons]
    simp only [eval_add, eval_C, eval_mul, eval_X]
    ring

theorem eval_eq_zero_iff {f : Poly m} {x : Residue m} :
    f.eval x = 0 ↔ f.toPolynomial.IsRoot x.toZMod := by
  rw [← Residue.toZMod_eq_zero_iff, toZMod_eval, IsRoot.def]

/-! ## Degree and leading coefficient -/

@[simp]
theorem toZMod_coeff (f : Poly m) (i : ℕ) : (f.coeff i).toZMod = f.toPolynomial.coeff i :=
  (coeff_coeffPolynomial f.coeffs i).symm

theorem degree_toPolynomial_lt (f : Poly m) : f.toPolynomial.degree < f.size :=
  degree_coeffPolynomial_lt f.coeffs

/-- The leading coefficient is the one of highest index. -/
theorem lead_eq_coeff (f : Poly m) : f.lead = f.coeff (f.size - 1) := by
  unfold lead coeff size
  rw [List.getLast?_eq_getElem?, List.getD_eq_getElem?_getD]

theorem lead_ne_zero {f : Poly m} (h : 0 < f.size) : f.lead ≠ 0 := by
  intro h0
  have hne : f.coeffs ≠ [] := List.length_pos_iff.mp h
  apply f.getLast?_ne
  rw [List.getLast?_eq_some_getLast hne]
  unfold lead at h0
  rw [List.getLast?_eq_some_getLast hne] at h0
  exact congrArg some h0

theorem natDegree_toPolynomial (f : Poly m) : f.toPolynomial.natDegree = f.size - 1 := by
  rcases Nat.eq_zero_or_pos f.size with h | h
  · have hnil : f.coeffs = [] := List.length_eq_zero_iff.mp h
    simp [toPolynomial, hnil, h]
  · have hcoeff : f.toPolynomial.coeff (f.size - 1) ≠ 0 := by
      rw [← toZMod_coeff, ← lead_eq_coeff, Ne, Residue.toZMod_eq_zero_iff]
      exact lead_ne_zero h
    have hle := le_natDegree_of_ne_zero hcoeff
    have hne : f.toPolynomial ≠ 0 := fun h0 => hcoeff (by rw [h0, coeff_zero])
    have hlt := (natDegree_lt_iff_degree_lt hne).mpr f.degree_toPolynomial_lt
    omega

@[simp]
theorem leadingCoeff_toPolynomial (f : Poly m) : f.toPolynomial.leadingCoeff = f.lead.toZMod := by
  rw [leadingCoeff, natDegree_toPolynomial, lead_eq_coeff, toZMod_coeff]

theorem size_eq_zero_iff {f : Poly m} : f.size = 0 ↔ f.toPolynomial = 0 := by
  constructor
  · intro h
    rw [toPolynomial, List.length_eq_zero_iff.mp h, coeffPolynomial_nil]
  · intro h
    by_contra hne
    apply lead_ne_zero (Nat.pos_of_ne_zero hne)
    rw [← Residue.toZMod_eq_zero_iff, ← leadingCoeff_toPolynomial, h, leadingCoeff_zero]

theorem isZero_iff {f : Poly m} : f.isZero = true ↔ f.toPolynomial = 0 := by
  rw [← size_eq_zero_iff, isZero, List.isEmpty_iff, size, List.length_eq_zero_iff]

theorem isZero_eq_false_iff {f : Poly m} : f.isZero = false ↔ f.toPolynomial ≠ 0 := by
  rw [Ne, ← isZero_iff, Bool.not_eq_true]

theorem isMonic_iff {f : Poly m} : f.isMonic = true ↔ f.toPolynomial.Monic := by
  rw [isMonic, decide_eq_true_iff, Monic, leadingCoeff_toPolynomial, Residue.toZMod_eq_one_iff]

/-- The size of a polynomial that is not zero. -/
theorem size_eq {f : Poly m} (h : f.toPolynomial ≠ 0) :
    f.size = f.toPolynomial.natDegree + 1 := by
  have hpos : f.size ≠ 0 := fun h0 => h (size_eq_zero_iff.mp h0)
  rw [natDegree_toPolynomial]
  omega

theorem degree_eq {f : Poly m} (h : f.toPolynomial ≠ 0) :
    f.degree = f.toPolynomial.natDegree := by
  rw [degree, size_eq h]
  omega

/-- Sizes compare as degrees do. -/
theorem size_lt_size_iff {f g : Poly m} :
    f.size < g.size ↔ f.toPolynomial.degree < g.toPolynomial.degree := by
  by_cases hg : g.toPolynomial = 0
  · simp [size_eq_zero_iff.mpr hg, hg]
  by_cases hf : f.toPolynomial = 0
  · rw [size_eq_zero_iff.mpr hf, hf, degree_zero, bot_lt_iff_ne_bot, Ne, degree_eq_bot, size_eq hg]
    simp [hg]
  · rw [size_eq hf, size_eq hg, degree_eq_natDegree hf, degree_eq_natDegree hg]
    simp

/-- Two polynomials are equal if they stand for the same element of `(ZMod m.value)[X]`. -/
theorem toPolynomial_injective : Function.Injective (toPolynomial (m := m)) := by
  intro f g h
  have hsize : f.size = g.size := by
    have hfg := size_lt_size_iff (f := f) (g := g)
    have hgf := size_lt_size_iff (f := g) (g := f)
    rw [h, lt_self_iff_false, iff_false] at hfg hgf
    omega
  have hcoeff : ∀ i, f.coeff i = g.coeff i := by
    intro i
    apply Residue.toZMod_injective
    rw [toZMod_coeff, toZMod_coeff, h]
  apply ext
  apply List.ext_getElem hsize
  intro i hf hg
  have hi := hcoeff i
  rwa [coeff, coeff, List.getD_eq_getElem _ _ hf, List.getD_eq_getElem _ _ hg] at hi

theorem toPolynomial_inj {f g : Poly m} : f.toPolynomial = g.toPolynomial ↔ f = g :=
  toPolynomial_injective.eq_iff

theorem toPolynomial_eq_zero_iff {f : Poly m} : f.toPolynomial = 0 ↔ f = 0 := by
  rw [← toPolynomial_zero, toPolynomial_inj]

end Poly

end MultisetRecovery

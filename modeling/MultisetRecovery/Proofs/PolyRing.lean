import Mathlib.Data.List.DropRight
import MultisetRecovery.Proofs.Poly

/-!
# The ring of polynomials

Polynomials in canonical form are the elements of `(ZMod m.value)[X]`, each exactly once, over any
modulus. A list of integers becomes a polynomial by reducing its entries and dropping the zeros at
the end (`ints_ofInts`), those included that the reduction has made; a list that is in canonical
form already stays what it is. Between canonical forms and ring elements, the operations are those
of the ring, equality is equality, and evaluation at an integer is a ring homomorphism.
-/

open Polynomial

namespace MultisetRecovery

variable {m : Modulus}

/-- Least representatives, the last of which is not zero. -/
def Modulus.IsCanonicalForm (m : Modulus) (cs : List ℤ) : Prop :=
  (∀ c ∈ cs, m.IsCanonical c) ∧ cs.getLast? ≠ some 0

namespace Poly

/-- The coefficients as integers, lowest first. -/
def ints (f : Poly m) : List ℤ := f.coeffs.map fun c => (c.val : ℤ)

/-! ## Canonical forms -/

theorem trim_concat (cs : List (Residue m)) (c : Residue m) :
    trim (cs ++ [c]) = if c = 0 then trim cs else cs ++ [c] := by
  induction cs with
  | nil => rfl
  | cons d ds ih =>
    rw [List.cons_append, trim, ih, trim]
    by_cases hc : c = 0
    · rw [if_pos hc, if_pos hc]
    · rw [if_neg hc, if_neg hc]
      cases ds with
      | nil => rfl
      | cons e es => rfl

theorem trim_eq_rdropWhile (cs : List (Residue m)) : trim cs = cs.rdropWhile (· = 0) := by
  induction cs using List.reverseRecOn with
  | nil => rfl
  | append_singleton cs c ih =>
    rw [trim_concat, List.rdropWhile_concat, ih]
    by_cases hc : c = 0
    · rw [if_pos hc, if_pos (decide_eq_true hc)]
    · rw [if_neg hc, if_neg (by simpa using hc)]

/-- Integers become coefficients by reduction, and the zeros at the end are dropped. -/
theorem ints_ofInts (vs : List ℤ) :
    (ofInts m vs).ints = (vs.map (· % (m.value : ℤ))).rdropWhile (· = 0) := by
  have hvals : (vs.map (Residue.ofInt m)).map (fun c => (c.val : ℤ)) =
      vs.map (· % (m.value : ℤ)) := by
    rw [List.map_map]
    exact List.map_congr_left fun v _ => Residue.val_ofInt v
  have hzero : ((fun v : ℤ => decide (v = 0)) ∘ fun c : Residue m => (c.val : ℤ)) =
      fun c => decide (c = 0) := by
    funext c
    rw [Function.comp_apply, decide_eq_decide, Int.natCast_eq_zero, ← Residue.val_inj]
    rfl
  rw [← hvals, ints, ofInts, coeffs_ofCoeffs, trim_eq_rdropWhile]
  generalize vs.map (Residue.ofInt m) = cs
  rw [List.rdropWhile, List.rdropWhile, ← List.map_reverse, List.dropWhile_map, hzero,
    List.map_reverse]

theorem isCanonicalForm_ints (f : Poly m) : m.IsCanonicalForm f.ints := by
  refine ⟨fun v hv => ?_, ?_⟩
  · obtain ⟨c, -, rfl⟩ := List.mem_map.mp hv
    exact c.isCanonical_val
  · rw [ints, List.getLast?_map]
    intro h
    obtain ⟨c, hc, hval⟩ := Option.map_eq_some_iff.mp h
    apply f.getLast?_ne
    rw [hc, Option.some.injEq, ← Residue.val_inj]
    exact Int.natCast_eq_zero.mp hval

/-- The coefficients of a polynomial determine it. -/
theorem ofInts_ints (f : Poly m) : ofInts m f.ints = f := by
  apply toPolynomial_injective
  rw [ofInts, toPolynomial_ofCoeffs, ints, Residue.map_ofInt_val, toPolynomial]

/-- A canonical form is that of some polynomial. -/
theorem ints_ofInts_of_isCanonicalForm {cs : List ℤ} (h : m.IsCanonicalForm cs) :
    (ofInts m cs).ints = cs := by
  have hreduced : cs.map (· % (m.value : ℤ)) = cs := by
    conv_rhs => rw [← List.map_id cs]
    exact List.map_congr_left fun c hc => Int.emod_eq_of_lt (h.1 c hc).1 (h.1 c hc).2
  rw [ints_ofInts, hreduced, List.rdropWhile_eq_self_iff]
  intro hne hlast
  apply h.2
  rw [List.getLast?_eq_some_getLast hne, of_decide_eq_true hlast]

/-! ## Elements of the ring -/

theorem coeffPolynomial_eq_sum (cs : List (Residue m)) :
    coeffPolynomial cs =
      ∑ i ∈ Finset.range cs.length, C (cs.getD i 0).toZMod * Polynomial.X ^ i := by
  induction cs with
  | nil => rfl
  | cons c cs ih =>
    have hshift : ∀ i ∈ Finset.range cs.length,
        Polynomial.X * (C (cs.getD i 0).toZMod * Polynomial.X ^ i) =
          C ((c :: cs).getD (i + 1) 0).toZMod * Polynomial.X ^ (i + 1) := by
      intro i _
      rw [List.getD_cons_succ, pow_succ]
      ring
    rw [coeffPolynomial_cons, ih, List.length_cons, Finset.sum_range_succ', Finset.mul_sum,
      Finset.sum_congr rfl hshift, List.getD_cons_zero, pow_zero, mul_one, add_comm]

/-- A list of integers is read as coefficients in ascending order. -/
theorem toPolynomial_ofInts (vs : List ℤ) :
    (ofInts m vs).toPolynomial =
      ∑ i ∈ Finset.range vs.length, C ((vs.getD i 0 : ℤ) : ZMod m.value) * Polynomial.X ^ i := by
  rw [ofInts, toPolynomial_ofCoeffs, coeffPolynomial_eq_sum, List.length_map]
  refine Finset.sum_congr rfl fun i hi => ?_
  have hi' : i < vs.length := Finset.mem_range.mp hi
  rw [List.getD_eq_getElem _ _ (by simpa using hi'), List.getD_eq_getElem _ _ hi',
    List.getElem_map, Residue.toZMod_ofInt]

theorem toPolynomial_surjective : Function.Surjective (toPolynomial (m := m)) := by
  intro f
  refine ⟨ofCoeffs ((List.range (f.natDegree + 1)).map fun i => Residue.ofZMod (f.coeff i)), ?_⟩
  rw [toPolynomial_ofCoeffs, coeffPolynomial_eq_sum, List.length_map, List.length_range]
  conv_rhs => rw [f.as_sum_range_C_mul_X_pow]
  refine Finset.sum_congr rfl fun i hi => ?_
  rw [List.getD_eq_getElem _ _ (by simpa using hi), List.getElem_map, List.getElem_range,
    Residue.toZMod_ofZMod]

/-- Every polynomial is in canonical form, whatever built it, and canonical forms are the elements
of the ring of polynomials over the residues. -/
theorem ring_of_canonicalForms (m : Modulus) :
    (∀ f : Poly m, m.IsCanonicalForm f.ints ∧ ofInts m f.ints = f) ∧
    (∀ cs : List ℤ, m.IsCanonicalForm cs → (ofInts m cs).ints = cs) ∧
    (∀ vs : List ℤ, (ofInts m vs).ints = (vs.map (· % (m.value : ℤ))).rdropWhile (· = 0) ∧
      (ofInts m vs).toPolynomial =
        ∑ i ∈ Finset.range vs.length, C ((vs.getD i 0 : ℤ) : ZMod m.value) * Polynomial.X ^ i) ∧
    Function.Bijective (toPolynomial (m := m)) ∧
    (∀ f g : Poly m, (f == g) = true ↔ f.toPolynomial = g.toPolynomial) ∧
    ((0 : Poly m).toPolynomial = 0 ∧ (1 : Poly m).toPolynomial = 1 ∧
      (Poly.X : Poly m).toPolynomial = Polynomial.X ∧
      ∀ v : ℤ, (const (Residue.ofInt m v)).toPolynomial = C (v : ZMod m.value)) ∧
    (∀ f g : Poly m, (f + g).toPolynomial = f.toPolynomial + g.toPolynomial ∧
      (-f).toPolynomial = -f.toPolynomial ∧
      (f - g).toPolynomial = f.toPolynomial - g.toPolynomial ∧
      (f * g).toPolynomial = f.toPolynomial * g.toPolynomial) ∧
    (∀ (f : Poly m) (v : ℤ),
      (f.scale (Residue.ofInt m v)).toPolynomial = C (v : ZMod m.value) * f.toPolynomial) ∧
    (∀ rs : List ℤ, (ofRoots (rs.map (Residue.ofInt m))).toPolynomial =
      (rs.map fun r : ℤ => Polynomial.X - C (r : ZMod m.value)).prod) ∧
    ∀ (x : ℤ) (f : Poly m), (f.eval (Residue.ofInt m x)).val < m.value ∧
      (f.eval (Residue.ofInt m x)).toZMod =
        Polynomial.evalRingHom (x : ZMod m.value) f.toPolynomial := by
  refine ⟨fun f => ⟨isCanonicalForm_ints f, ofInts_ints f⟩,
    fun _ => ints_ofInts_of_isCanonicalForm, fun vs => ⟨ints_ofInts vs, toPolynomial_ofInts vs⟩,
    ⟨toPolynomial_injective, toPolynomial_surjective⟩, fun f g => ?_, ⟨?_, ?_, ?_, ?_⟩,
    fun f g => ⟨?_, ?_, ?_, ?_⟩, fun f v => ?_, fun rs => ?_, fun x f => ⟨?_, ?_⟩⟩
  · rw [beq_iff_eq, toPolynomial_inj]
  · exact toPolynomial_zero
  · exact toPolynomial_one
  · exact toPolynomial_X
  · intro v
    rw [toPolynomial_const, Residue.toZMod_ofInt]
  · exact toPolynomial_add f g
  · exact toPolynomial_neg f
  · exact toPolynomial_sub f g
  · exact toPolynomial_mul f g
  · rw [toPolynomial_scale, Residue.toZMod_ofInt]
  · rw [toPolynomial_ofRoots, List.map_map]
    refine congrArg List.prod (List.map_congr_left fun r _ => ?_)
    rw [Function.comp_apply, Residue.toZMod_ofInt]
  · exact Residue.val_lt _
  · rw [toZMod_eval, Residue.toZMod_ofInt, Polynomial.coe_evalRingHom]

end Poly

end MultisetRecovery

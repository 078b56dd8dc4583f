import Mathlib.FieldTheory.Separable
import MultisetRecovery.Proofs.Finder

/-!
# Products of distinct linear polynomials

Over a prime modulus a product of distinct linear polynomials is determined by its roots, whatever
order they are listed in. This turns the linear part of a polynomial, which comes from a greatest
common divisor, into the product that is written down from the roots. A division of such a product
by a part of it leaves the product of the other factors.
-/

open Polynomial

namespace MultisetRecovery.Poly

variable {m : Modulus}

theorem degree_ofRoots (rs : List (Residue m)) : (ofRoots rs).degree = rs.length := by
  have hdegree := natDegree_multiset_prod_X_sub_C_eq_card
    (rs.map Residue.toZMod : Multiset (ZMod m.value))
  rw [Multiset.map_coe, Multiset.prod_coe, List.map_map, Multiset.coe_card,
    List.length_map] at hdegree
  rw [degree_eq (monic_ofRoots rs).ne_zero, toPolynomial_ofRoots]
  exact congrArg Nat.cast hdegree

theorem ofRoots_perm {as bs : List (Residue m)} (h : as.Perm bs) : ofRoots as = ofRoots bs := by
  apply toPolynomial_injective
  rw [toPolynomial_ofRoots, toPolynomial_ofRoots]
  exact (h.map _).prod_eq

/-- Over any modulus, some of the factors can be divided out. -/
theorem divMod_ofRoots {rs as bs : List (Residue m)} (h : rs.Perm (bs ++ as)) :
    (ofRoots rs).divMod (ofRoots as) = .ok (ofRoots bs, 0) := by
  have hmonic := monic_ofRoots as
  apply divMod_unique (isUnit_lead_of_monic hmonic)
  · rw [ofRoots_perm h, toPolynomial_ofRoots, toPolynomial_ofRoots, toPolynomial_ofRoots,
      List.map_append, List.prod_append, toPolynomial_zero, add_zero]
  · rw [size_eq hmonic.ne_zero]
    exact Nat.succ_pos _

section Prime

variable [Fact m.value.Prime]

theorem roots_ofRoots (rs : List (Residue m)) :
    (ofRoots rs).toPolynomial.roots = (rs.map Residue.toZMod : Multiset (ZMod m.value)) := by
  have hroots := roots_multiset_prod_X_sub_C (rs.map Residue.toZMod : Multiset (ZMod m.value))
  rw [toPolynomial_ofRoots]
  simpa [Function.comp_def] using hroots

theorem X_sub_C_dvd_ofRoots_iff {rs : List (Residue m)} {r : Residue m} :
    (Polynomial.X - C r.toZMod) ∣ (ofRoots rs).toPolynomial ↔ r ∈ rs := by
  rw [dvd_iff_isRoot, ← mem_roots (monic_ofRoots rs).ne_zero, roots_ofRoots, Multiset.mem_coe,
    List.mem_map_of_injective Residue.toZMod_injective]

theorem isLinearProduct_ofRoots {rs : List (Residue m)} (hrs : rs.Nodup) :
    (ofRoots rs).IsLinearProduct where
  monic := monic_ofRoots rs
  splits := by
    rw [toPolynomial_ofRoots]
    refine Splits.listProd fun g hg => ?_
    obtain ⟨r, -, rfl⟩ := List.mem_map.mp hg
    exact Splits.X_sub_C r.toZMod
  nodup := by
    rw [roots_ofRoots]
    exact Multiset.coe_nodup.mpr (hrs.map Residue.toZMod_injective)

/-- A product of distinct linear polynomials is that of its roots. -/
theorem IsLinearProduct.eq_ofRoots {h : Poly m} (hh : h.IsLinearProduct) {rs : List (Residue m)}
    (hroots : h.toPolynomial.roots = (rs.map Residue.toZMod : Multiset (ZMod m.value))) :
    h = ofRoots rs := by
  apply toPolynomial_injective
  rw [toPolynomial_ofRoots, hh.splits.eq_prod_roots, hroots, hh.monic.leadingCoeff]
  simp [Function.comp_def]

/-! ## The linear part -/

theorem linearPart_eq {f : Poly m} (hf : f.toPolynomial ≠ 0) :
    f.linearPart = .ok (ofRoots f.zeros) := by
  obtain ⟨h, hh, -⟩ := exists_linearPart hf
  obtain ⟨hlinear, hroots⟩ := isLinearProduct_linearPart hf hh
  rw [← coe_map_zeros hf] at hroots
  rw [hh, hlinear.eq_ofRoots hroots]

theorem squarefree_ofRoots {rs : List (Residue m)} (hrs : rs.Nodup) :
    Squarefree (ofRoots rs).toPolynomial := by
  have hlinear := isLinearProduct_ofRoots hrs
  have hseparable := (nodup_roots_iff_of_splits hlinear.monic.ne_zero hlinear.splits).mp
    hlinear.nodup
  exact hseparable.squarefree

theorem degree_eq_one_of_irreducible_of_dvd_ofRoots {rs : List (Residue m)} (hrs : rs.Nodup)
    {q : (ZMod m.value)[X]} (hq : Irreducible q) (hdvd : q ∣ (ofRoots rs).toPolynomial) :
    q.degree = 1 := by
  have hlinear := isLinearProduct_ofRoots hrs
  exact (hlinear.splits.of_dvd hlinear.monic.ne_zero hdvd).degree_eq_one_of_irreducible hq

end Prime

/-- Over a prime modulus the linear part of a polynomial is the product of the linear polynomials of
its roots, each of them once. -/
theorem linearPart_exact (m : Modulus) (hm : m.value.Prime) (f : Poly m) (hf : f ≠ 0) :
    ∃ rs : List (Residue m), rs.Nodup ∧ (∀ a, a ∈ rs ↔ f.eval a = 0) ∧
      f.linearPart = .ok (ofRoots rs) ∧
      (ofRoots rs).toPolynomial = (rs.map fun r => Polynomial.X - C r.toZMod).prod ∧
      Squarefree (ofRoots rs).toPolynomial ∧
      (∀ q, Irreducible q → q ∣ (ofRoots rs).toPolynomial → q.degree = 1) ∧
      ((∀ a, f.eval a ≠ 0) → ofRoots rs = 1) := by
  have : Fact m.value.Prime := ⟨hm⟩
  have hne : f.toPolynomial ≠ 0 := toPolynomial_eq_zero_iff.not.mpr hf
  refine ⟨f.zeros, f.nodup_zeros, fun a => mem_zeros, linearPart_eq hne, toPolynomial_ofRoots _,
    squarefree_ofRoots f.nodup_zeros, fun q hq hdvd => ?_, fun hnone => ?_⟩
  · exact degree_eq_one_of_irreducible_of_dvd_ofRoots f.nodup_zeros hq hdvd
  · have hnil : f.zeros = [] := by
      rw [List.eq_nil_iff_forall_not_mem]
      intro a ha
      exact hnone a (mem_zeros.mp ha)
    rw [hnil]
    rfl

/-- Modulo three, `2 * x ^ 2 * (x - 1) * (x ^ 2 + 1)` has the linear part `x * (x - 1)`. -/
theorem linearPart_exact_three :
    let f : Poly ⟨3, by decide⟩ := ofInts ⟨3, by decide⟩ [0, 0, -2, 2, -2, 2]
    Nat.Prime 3 ∧ f ≠ 0 ∧ f.linearPart = .ok (ofRoots [0, 1]) ∧
      Squarefree (ofRoots [0, 1] : Poly ⟨3, by decide⟩).toPolynomial := by
  intro f
  have hf : f ≠ 0 := by decide
  have hpart : f.linearPart = .ok (ofRoots [0, 1]) := by decide +kernel
  obtain ⟨rs, -, -, hrs, -, hsquarefree, -⟩ := linearPart_exact ⟨3, by decide⟩ Nat.prime_three f hf
  have heq : ofRoots rs = ofRoots [0, 1] := Except.ok.inj (hrs.symm.trans hpart)
  rw [heq] at hsquarefree
  exact ⟨Nat.prime_three, hf, hpart, hsquarefree⟩

end MultisetRecovery.Poly

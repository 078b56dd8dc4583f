import Mathlib.Algebra.Polynomial.Splits
import Mathlib.FieldTheory.Finite.Basic
import MultisetRecovery.Proofs.Division
import MultisetRecovery.RootSearch.Frobenius

/-!
# The roots by the Frobenius map

Over a prime modulus `p` the greatest common divisor of a polynomial with `x ^ p - x` is the product
of the linear polynomials of its distinct roots. Whatever proper part of such a product a random
shift separates, part and quotient are again such products and share the roots among them. So a
search that returns has found each root once, and one that fails has used up the shifts of a split.
-/

open Polynomial

namespace MultisetRecovery

variable {m : Modulus}

namespace Poly

section Prime

variable [Fact m.value.Prime]

/-- A product of distinct monic linear polynomials. -/
structure IsLinearProduct (h : Poly m) : Prop where
  /-- The leading coefficient is one. -/
  monic : h.toPolynomial.Monic
  /-- All factors are linear. -/
  splits : h.toPolynomial.Splits
  /-- The factors are distinct. -/
  nodup : h.toPolynomial.roots.Nodup

theorem IsLinearProduct.of_dvd {h g : Poly m} (hh : h.IsLinearProduct) (hg : g.toPolynomial.Monic)
    (hgh : g.toPolynomial ∣ h.toPolynomial) : g.IsLinearProduct := by
  have hne := hh.monic.ne_zero
  exact ⟨hg, hh.splits.of_dvd hne hgh, Multiset.nodup_of_le (roots.le_of_dvd hne hgh) hh.nodup⟩

/-- If a proper part is divided out, the roots are shared among part and quotient. -/
theorem IsLinearProduct.of_divMod {h g q r : Poly m} (hh : h.IsLinearProduct)
    (hg : g.toPolynomial.Monic) (hgh : g.toPolynomial ∣ h.toPolynomial)
    (hdiv : h.divMod g = .ok (q, r)) :
    q.IsLinearProduct ∧
      h.toPolynomial.roots = q.toPolynomial.roots + g.toPolynomial.roots := by
  have hspec := eq_mul_add_of_divMod hdiv
  have hzero : r.toPolynomial = 0 := by
    have hdvd : g.toPolynomial ∣ r.toPolynomial := by
      rw [hspec] at hgh
      exact (dvd_add_right (dvd_mul_left _ _)).mp hgh
    exact eq_zero_of_dvd_of_degree_lt hdvd (size_lt_size_iff.mp (size_snd_lt_of_divMod hdiv))
  rw [hzero, add_zero] at hspec
  have hq : q.toPolynomial.Monic := hg.of_mul_monic_right (hspec ▸ hh.monic)
  refine ⟨hh.of_dvd hq ⟨g.toPolynomial, hspec⟩, ?_⟩
  rw [hspec, roots_mul (hspec ▸ hh.monic.ne_zero)]

/-! ## Greatest common divisors -/

/-- The difference to a power modulo `f` is as good as the power for common divisors with `f`. -/
theorem dvd_sub_and_dvd_iff {f : Poly m} {p r s d : (ZMod m.value)[X]}
    (h : f.toPolynomial ∣ p - r) :
    (d ∣ r - s ∧ d ∣ f.toPolynomial) ↔ (d ∣ p - s ∧ d ∣ f.toPolynomial) := by
  have heq : p - s = (p - r) + (r - s) := by ring
  constructor
  · rintro ⟨hd, hf⟩
    rw [heq]
    exact ⟨dvd_add (hf.trans h) hd, hf⟩
  · rintro ⟨hd, hf⟩
    rw [heq] at hd
    exact ⟨(dvd_add_right (hf.trans h)).mp hd, hf⟩

theorem exists_linearPart {f : Poly m} (hf : f.toPolynomial ≠ 0) :
    ∃ h, f.linearPart = .ok h ∧ h.toPolynomial.Monic ∧ ∀ d, d ∣ h.toPolynomial ↔
      d ∣ Polynomial.X ^ m.value - Polynomial.X ∧ d ∣ f.toPolynomial := by
  obtain ⟨r, hr, -, hdvd⟩ := exists_powMod (isUnit_lead hf) Poly.X m.value
  obtain ⟨h, hgcd, hiff, hmonic⟩ := exists_gcd (r - Poly.X) f
  refine ⟨h, by rw [linearPart, hr, Except.ok_bind, hgcd], hmonic (.inr hf), fun d => ?_⟩
  rw [toPolynomial_X] at hdvd
  rw [hiff, toPolynomial_sub, toPolynomial_X]
  exact dvd_sub_and_dvd_iff hdvd

theorem exists_squareClass {h : Poly m} (hh : h.toPolynomial ≠ 0) (a : Residue m) :
    ∃ g, h.squareClass a = .ok g ∧ g.toPolynomial.Monic ∧ ∀ d, d ∣ g.toPolynomial ↔
      d ∣ (Polynomial.X + C a.toZMod) ^ m.eulerExponent - 1 ∧ d ∣ h.toPolynomial := by
  obtain ⟨r, hr, -, hdvd⟩ := exists_powMod (isUnit_lead hh) (ofCoeffs [a, 1]) m.eulerExponent
  obtain ⟨g, hgcd, hiff, hmonic⟩ := exists_gcd (r - 1) h
  refine ⟨g, by rw [squareClass, hr, Except.ok_bind, hgcd], hmonic (.inr hh), fun d => ?_⟩
  have hshift : (ofCoeffs [a, 1]).toPolynomial = Polynomial.X + C a.toZMod := by
    simp [add_comm]
  rw [hshift] at hdvd
  rw [hiff, toPolynomial_sub, toPolynomial_one]
  exact dvd_sub_and_dvd_iff hdvd

/-! ## The linear part -/

theorem roots_X_pow_sub_X :
    (Polynomial.X ^ m.value - Polynomial.X : (ZMod m.value)[X]).roots = Finset.univ.val := by
  have hroots := FiniteField.roots_X_pow_card_sub_X (ZMod m.value)
  rwa [ZMod.card] at hroots

theorem X_pow_sub_X_ne_zero :
    (Polynomial.X ^ m.value - Polynomial.X : (ZMod m.value)[X]) ≠ 0 :=
  FiniteField.X_pow_card_sub_X_ne_zero _ m.one_lt_value

theorem splits_X_pow_sub_X :
    (Polynomial.X ^ m.value - Polynomial.X : (ZMod m.value)[X]).Splits := by
  rw [splits_iff_card_roots, roots_X_pow_sub_X,
    FiniteField.X_pow_card_sub_X_natDegree_eq _ m.one_lt_value, Finset.card_val, Finset.card_univ,
    ZMod.card]

/-- The linear part is the product of the linear polynomials of the distinct roots. -/
theorem isLinearProduct_linearPart {f h : Poly m} (hf : f.toPolynomial ≠ 0)
    (hh : f.linearPart = .ok h) :
    h.IsLinearProduct ∧ h.toPolynomial.roots = f.toPolynomial.roots.dedup := by
  obtain ⟨h', hh', hmonic, hiff⟩ := exists_linearPart hf
  cases hh.symm.trans hh'
  have hdvd := ((hiff h.toPolynomial).mp dvd_rfl).1
  have hnodup : h.toPolynomial.roots.Nodup := by
    have hle := roots.le_of_dvd X_pow_sub_X_ne_zero hdvd
    rw [roots_X_pow_sub_X] at hle
    exact Multiset.nodup_of_le hle Finset.univ.nodup
  refine ⟨⟨hmonic, splits_X_pow_sub_X.of_dvd X_pow_sub_X_ne_zero hdvd, hnodup⟩, ?_⟩
  rw [Multiset.Nodup.ext hnodup (Multiset.nodup_dedup _)]
  intro x
  have hall : (Polynomial.X ^ m.value - Polynomial.X : (ZMod m.value)[X]).IsRoot x := by
    rw [← mem_roots X_pow_sub_X_ne_zero, roots_X_pow_sub_X]
    exact Finset.mem_univ x
  rw [Multiset.mem_dedup, mem_roots hmonic.ne_zero, mem_roots hf, ← dvd_iff_isRoot, hiff,
    dvd_iff_isRoot, dvd_iff_isRoot]
  exact and_iff_right hall

/-! ## Roots -/

theorem roots_eq_zero_of_degree_lt {f : Poly m} (hf : f.toPolynomial ≠ 0) (h : f.degree < 1) :
    f.toPolynomial.roots = 0 := by
  rw [degree_eq hf] at h
  have hcard := card_roots' f.toPolynomial
  rw [← Multiset.card_eq_zero]
  omega

/-- A list of the residues at which a polynomial vanishes, each listed once. -/
theorem coe_map_eq_dedup_roots {f : Poly m} (hf : f.toPolynomial ≠ 0) {rs : List (Residue m)}
    (hnodup : rs.Nodup) (hmem : ∀ a, a ∈ rs ↔ f.eval a = 0) :
    (rs.map Residue.toZMod : Multiset (ZMod m.value)) = f.toPolynomial.roots.dedup := by
  have hmap := hnodup.map Residue.toZMod_injective
  rw [Multiset.Nodup.ext (Multiset.coe_nodup.mpr hmap) (Multiset.nodup_dedup _)]
  intro x
  obtain ⟨a, rfl⟩ := Residue.toZMod_surjective x
  rw [Multiset.mem_coe, List.mem_map_of_injective Residue.toZMod_injective, hmem,
    eval_eq_zero_iff, Multiset.mem_dedup, mem_roots hf]

theorem roots_of_monic {f g : Poly m} (h : f.monic = .ok g) :
    g.toPolynomial.roots = f.toPolynomial.roots := by
  obtain ⟨-, u, v, huv, heq⟩ := monic_spec h
  rw [heq, roots_C_mul _ (left_ne_zero_of_mul_eq_one huv)]

end Prime

end Poly

/-! ## The search -/

namespace Frobenius

/-- All shifts that may be tried for one split are used up. -/
def Exhausted (limit : ℤ) (e : Failure) : Prop := ∃ d, e = .internal (.splitExhausted d limit)

variable [Fact m.value.Prime] {σ : Type} [Source σ]

/-- A part that a shift separates is monic and divides. -/
theorem ensures_splitFrom (limit : ℤ) {h : Poly m} (hh : h.toPolynomial ≠ 0) (left tried : ℕ) :
    (splitFrom limit h left tried : Search σ _).Ensures
      (fun g => g.1.toPolynomial.Monic ∧ g.1.toPolynomial ∣ h.toPolynomial)
      (Exhausted limit) := by
  induction left generalizing tried with
  | zero => exact Search.ensures_abandon ⟨_, rfl⟩
  | succ left ih =>
    refine (Search.ensures_residue m).bind fun a _ => ?_
    obtain ⟨g, hg, hmonic, hiff⟩ := Poly.exists_squareClass hh a
    refine (Search.ensures_ofArithmetic hg (Eq.refl g)).bind fun g' hg' => ?_
    cases hg'
    split
    · exact Search.ensures_pure ⟨hmonic, ((hiff g.toPolynomial).mp dvd_rfl).2⟩
    · exact (Search.ensures_note _).bind fun _ _ => ih (tried + 1)

/-- A search that returns has found each root of a product of distinct linear polynomials. -/
theorem ensures_linearRoots (limit : ℤ) {h : Poly m} (hh : h.IsLinearProduct) :
    (linearRoots limit h : Search σ _).Ensures
      (fun rs => (rs.map Residue.toZMod : Multiset (ZMod m.value)) = h.toPolynomial.roots)
      (Exhausted limit) := by
  induction hn : h.size using Nat.strong_induction_on generalizing h with
  | _ n ih =>
    subst hn
    rw [linearRoots]
    split
    · rename_i hone
      apply Search.ensures_pure
      have hnat : h.toPolynomial.natDegree = 1 := by
        rw [Poly.degree_eq hh.monic.ne_zero] at hone
        exact_mod_cast hone
      rw [hh.monic.eq_X_add_C hnat, ← sub_neg_eq_add, ← C_neg, roots_X_sub_C]
      simp
    · -- A proper part is smaller than the whole, and so is the quotient by it.
      refine (ensures_splitFrom limit hh.monic.ne_zero _ _).bind fun ⟨part, hproper⟩ hpart => ?_
      obtain ⟨hmonic, hdvd⟩ := hpart
      simp only at hmonic hdvd ⊢
      obtain ⟨q, r, hqr⟩ := Poly.exists_divMod (Poly.isUnit_lead hmonic.ne_zero) h
      obtain ⟨hq, hroots⟩ := hh.of_divMod hmonic hdvd hqr
      split
      · rename_i e herr
        cases herr.symm.trans hqr
      · rename_i qr hok
        cases hok.symm.trans hqr
        have hothers := ih q.size (Poly.size_quotient_lt hproper hqr) hq rfl
        have hthese := ih part.size (Poly.size_lt_of_isProperPart hproper)
          (hh.of_dvd hmonic hdvd) rfl
        refine hothers.bind fun others ho => hthese.bind fun these ht => ?_
        apply Search.ensures_pure
        rw [hroots, ← ho, ← ht, List.map_append, Multiset.coe_add]

/-- Modulo two the residues that are roots are found by trying both. -/
theorem coe_filter_eq_roots (hm : m.value = 2) {h : Poly m} (hh : h.IsLinearProduct) :
    ((([0, 1] : List (Residue m)).filter (h.eval · = 0)).map Residue.toZMod :
      Multiset (ZMod m.value)) = h.toPolynomial.roots := by
  have hne : (0 : Residue m) ≠ 1 := by simp [← Residue.val_inj]
  have hpair : ([0, 1] : List (Residue m)).Nodup := by simp [hne]
  rw [Poly.coe_map_eq_dedup_roots hh.monic.ne_zero (hpair.filter _), hh.nodup.dedup]
  intro a
  have hboth : a ∈ ([0, 1] : List (Residue m)) := by
    have hval : a.val = 0 ∨ a.val = 1 := by
      have hlt := a.val_lt
      omega
    simpa [← Residue.val_inj] using hval
  rw [List.mem_filter, decide_eq_true_iff]
  exact and_iff_right hboth

/-- A search that returns has found each root once. -/
theorem ensures_distinctRoots (limit : ℤ) {f : Poly m} (hf : f.toPolynomial ≠ 0) :
    (distinctRoots limit f : Search σ _).Ensures
      (fun rs => (rs.map Residue.toZMod : Multiset (ZMod m.value)) = f.toPolynomial.roots.dedup)
      (Exhausted limit) := by
  rw [distinctRoots]
  split
  · rename_i hdeg
    apply Search.ensures_pure
    rw [Poly.roots_eq_zero_of_degree_lt hf hdeg]
    rfl
  · obtain ⟨g, hg⟩ := Poly.exists_monic (Poly.isUnit_lead hf)
    have hne := (Poly.monic_spec hg).1.ne_zero
    obtain ⟨h, hh, -⟩ := Poly.exists_linearPart hne
    obtain ⟨hlinear, hroots⟩ := Poly.isLinearProduct_linearPart hne hh
    rw [Poly.roots_of_monic hg] at hroots
    have hpart : (f.monic >>= fun g => g.linearPart) = .ok h := by rw [hg, Except.ok_bind, hh]
    refine (Search.ensures_ofArithmetic hpart (Eq.refl h)).bind fun h' hh' => ?_
    cases hh'
    refine (Search.ensures_note _).bind fun _ _ => ?_
    rw [← hroots]
    split
    · rename_i hdeg
      apply Search.ensures_pure
      rw [Poly.roots_eq_zero_of_degree_lt hlinear.monic.ne_zero hdeg]
      rfl
    · split
      · rename_i hm
        exact Search.ensures_pure (coe_filter_eq_roots hm hlinear)
      · exact ensures_linearRoots limit hlinear

end Frobenius

end MultisetRecovery

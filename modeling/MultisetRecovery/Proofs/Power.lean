import MultisetRecovery.Poly.Tagged
import MultisetRecovery.Proofs.Euclid
import MultisetRecovery.Proofs.PolyRing

/-!
# Powers modulo a polynomial are remainders of powers

Where the leading coefficient of a divisor is a unit, a remainder is told from all other polynomials
of smaller degree by its difference to the dividend (`mod_eq_ok_iff`). Repeated squaring ends with a
polynomial of smaller degree that differs from the power by a multiple of the divisor, so that is
the remainder of the power, whatever the exponent. The divisor may be a constant, and then even the
power zero comes to zero.
-/

open Polynomial

namespace MultisetRecovery

/-! ## Polynomials that carry their modulus -/

namespace TaggedPoly

variable {m : Modulus}

theorem matching_of_same_modulus (a f : Poly m) :
    (⟨m, a⟩ : TaggedPoly).matching ⟨m, f⟩ = .ok f := dif_pos rfl

theorem powMod_of_same_modulus {a f r : Poly m} {k : ℕ} (h : a.powMod k f = .ok r) :
    (⟨m, a⟩ : TaggedPoly).powMod k ⟨m, f⟩ = .ok ⟨m, r⟩ := by
  have hk : ¬ (k : ℤ) < 0 := by omega
  simp [powMod, hk, matching_of_same_modulus, h]

end TaggedPoly

namespace Poly

variable {m : Modulus}

/-! ## Products of equal factors -/

theorem toPolynomial_prod (fs : List (Poly m)) :
    fs.prod.toPolynomial = (fs.map toPolynomial).prod := by
  induction fs with
  | nil => exact toPolynomial_one
  | cons f fs ih => rw [List.prod_cons, toPolynomial_mul, ih, List.map_cons, List.prod_cons]

/-- The product of equal factors stands for a power. -/
theorem toPolynomial_prod_replicate (a : Poly m) (k : ℕ) :
    (List.replicate k a).prod.toPolynomial = a.toPolynomial ^ k := by
  rw [toPolynomial_prod, List.map_replicate, List.prod_replicate]

/-! ## Remainders -/

theorem isUnit_lead_of_prime {f : Poly m} (hm : m.value.Prime) (hf : f ≠ 0) :
    IsUnit f.lead.toZMod := by
  have : Fact m.value.Prime := ⟨hm⟩
  refine isUnit_lead fun h => hf ?_
  exact toPolynomial_eq_zero_iff.mp h

theorem mod_eq_ok_of_eq_mul_add {a f q r : Poly m} (hf : IsUnit f.lead.toZMod)
    (h : a = q * f + r) (hdegree : r.degree < f.degree) : a.mod f = .ok r := by
  have hdiv : a.divMod f = .ok (q, r) := by
    refine divMod_unique hf ?_ (degree_lt_degree_iff.mp hdegree)
    rw [h, toPolynomial_add, toPolynomial_mul]
  rw [mod, hdiv]
  rfl

/-- Of the polynomials that differ from the dividend by a multiple of the divisor, only the
remainder has a smaller degree. -/
theorem mod_eq_ok_iff {a f r : Poly m} (hf : IsUnit f.lead.toZMod) :
    a.mod f = .ok r ↔ r.degree < f.degree ∧ ∃ q, a = q * f + r := by
  constructor
  · intro h
    obtain ⟨⟨q, r'⟩, hdiv, hr⟩ := Except.bind_eq_ok_iff.mp h
    cases hr
    refine ⟨degree_lt_degree_iff.mpr (size_snd_lt_of_divMod hdiv), q, toPolynomial_injective ?_⟩
    rw [toPolynomial_add, toPolynomial_mul, eq_mul_add_of_divMod hdiv]
  · rintro ⟨hdegree, q, h⟩
    exact mod_eq_ok_of_eq_mul_add hf h hdegree

/-! ## Powers -/

/-- What repeated squaring ends with is the remainder of the product of equal factors. -/
theorem mod_prod_replicate_of_powMod {a f r : Poly m} {k : ℕ} (hf : IsUnit f.lead.toZMod)
    (h : a.powMod k f = .ok r) : (List.replicate k a).prod.mod f = .ok r := by
  obtain ⟨r', hr', hsize, q, hq⟩ := exists_powMod hf a k
  cases h.symm.trans hr'
  obtain ⟨q, rfl⟩ := toPolynomial_surjective q
  rw [mod_eq_ok_iff hf]
  refine ⟨degree_lt_degree_iff.mpr hsize, q, toPolynomial_injective ?_⟩
  rw [toPolynomial_prod_replicate, toPolynomial_add, toPolynomial_mul]
  linear_combination hq

/-- If the leading coefficient of `f` is a unit, as that of every non-zero polynomial over a prime
modulus is, then a power modulo `f` is the remainder of the product of equal factors, and no other
polynomial of smaller degree differs from that product by a multiple of `f`. -/
theorem powMod_eq_remainder (m : Modulus) (a f : Poly m) (k : ℕ)
    (hf : IsUnit f.lead.toZMod ∨ m.value.Prime ∧ f ≠ 0) :
    ∃ r, a.powMod k f = .ok r ∧ (⟨m, a⟩ : TaggedPoly).powMod k ⟨m, f⟩ = .ok ⟨m, r⟩ ∧
      (List.replicate k a).prod.mod f = .ok r ∧ r.degree < f.degree ∧
      (∃ q, (List.replicate k a).prod = q * f + r) ∧
      ∀ q' r', (List.replicate k a).prod = q' * f + r' → r'.degree < f.degree → r' = r := by
  have hunit : IsUnit f.lead.toZMod := hf.elim id fun h => isUnit_lead_of_prime h.1 h.2
  obtain ⟨r, hr, -, -⟩ := exists_powMod hunit a k
  have hmod := mod_prod_replicate_of_powMod hunit hr
  obtain ⟨hdegree, q, hq⟩ := (mod_eq_ok_iff hunit).mp hmod
  refine ⟨r, hr, TaggedPoly.powMod_of_same_modulus hr, hmod, hdegree, ⟨q, hq⟩, ?_⟩
  intro q' r' h' hdegree'
  have hmod' := (mod_eq_ok_iff hunit).mpr ⟨hdegree', q', h'⟩
  exact Except.ok.inj (hmod'.symm.trans hmod)

/-- A sixth power modulo four, where the square of the base has a smaller degree than the base, and
the power zero by a constant modulo seven. -/
theorem powMod_eq_remainder_four :
    let four : Modulus := ⟨4, by decide⟩
    let seven : Modulus := ⟨7, by decide⟩
    let a := ofInts four [1, 3, 0, 2]
    let f := ofInts four [2, 1, 3]
    let r := ofInts four [3, 3]
    let c := ofInts seven [3]
    (IsUnit f.lead.toZMod ∧ a.powMod 6 f = .ok r ∧
      (a * (a * (a * (a * (a * (a * 1)))))).mod f = .ok r ∧
      ∀ q' r', (List.replicate 6 a).prod = q' * f + r' → r'.degree < f.degree → r' = r) ∧
    Nat.Prime 7 ∧ c ≠ 0 ∧ (ofInts seven [1, 1]).powMod 0 c = .ok 0 ∧
      (1 : Poly seven).mod c = .ok 0 := by
  intro four seven a f r c
  have hunit : IsUnit f.lead.toZMod := by
    rw [Residue.isUnit_toZMod_iff]
    decide
  have hprime : Nat.Prime 7 := by norm_num
  have hc : c ≠ 0 := by decide
  have hrun : a.powMod 6 f = .ok r := by decide +kernel
  have hrun' : (ofInts seven [1, 1]).powMod 0 c = .ok 0 := by decide +kernel
  obtain ⟨s, hs, -, hmod, -, -, honly⟩ := powMod_eq_remainder four a f 6 (.inl hunit)
  obtain ⟨s', hs', -, hmod', -⟩ := powMod_eq_remainder seven (ofInts seven [1, 1]) c 0
    (.inr ⟨hprime, hc⟩)
  cases hrun.symm.trans hs
  cases hrun'.symm.trans hs'
  exact ⟨⟨hunit, hrun, hmod, honly⟩, hprime, hc, hrun', hmod'⟩

end Poly

end MultisetRecovery

import Mathlib.Tactic.NormNum.Prime
import MultisetRecovery.Proofs.Division

/-!
# Euclidean division and greatest common divisors

Which divisions of polynomials have a result, over any modulus: all but those by zero, and those in
which the leading coefficient of a divisor of no greater degree has no inverse
(`divMod_euclidean`). Over a prime modulus that leaves division by zero, which Euclid's algorithm
never comes to, so any two polynomials have a greatest common divisor (`gcd_greatest`).
-/

open Polynomial

namespace MultisetRecovery.Poly

variable {m : Modulus}

/-! ## Three outcomes of a division -/

theorem degree_lt_degree_iff {f g : Poly m} : f.degree < g.degree ↔ f.size < g.size := by
  unfold degree
  omega

theorem divMod_zero (a : Poly m) : a.divMod 0 = .error .divisionByZero := by
  have hzero : (0 : Poly m).isZero = true := rfl
  rw [divMod, if_pos hzero]

theorem divMod_of_degree_lt {a d : Poly m} (hd : d ≠ 0) (h : a.degree < d.degree) :
    a.divMod d = .ok (0, a) := by
  have hzero : ¬ d.isZero = true := by rwa [isZero_iff, toPolynomial_eq_zero_iff]
  rw [divMod, if_neg hzero, if_pos (degree_lt_degree_iff.mp h)]

/-- The leading coefficient is the first thing that is looked at, whatever there is to divide. -/
theorem divMod_of_not_isUnit {a d : Poly m} (hd : d ≠ 0) (h : d.degree ≤ a.degree)
    (hunit : ¬ IsUnit d.lead.toZMod) :
    a.divMod d = .error (.notInvertible (Nat.gcd d.lead.val m.value)) := by
  have hzero : ¬ d.isZero = true := by rwa [isZero_iff, toPolynomial_eq_zero_iff]
  have hsize : ¬ a.size < d.size := by
    rw [← degree_lt_degree_iff]
    exact not_lt.mpr h
  have hlead : d.lead ≠ 0 := by
    apply lead_ne_zero
    exact size_pos_of_isZero_eq_false (Bool.eq_false_iff.mpr hzero)
  rw [divMod, if_neg hzero, if_neg hsize, Residue.inverse_eq_error hlead hunit]
  rfl

theorem divMod_cases (a d : Poly m) :
    d = 0 ∧ a.divMod d = .error .divisionByZero ∨
    (d ≠ 0 ∧ d.degree ≤ a.degree ∧ ¬ IsUnit d.lead.toZMod) ∧
      a.divMod d = .error (.notInvertible (Nat.gcd d.lead.val m.value)) ∨
    (d ≠ 0 ∧ (d.degree ≤ a.degree → IsUnit d.lead.toZMod)) ∧
      ∃ q r, a.divMod d = .ok (q, r) := by
  by_cases hd : d = 0
  · subst hd
    exact .inl ⟨rfl, divMod_zero a⟩
  rcases lt_or_ge a.degree d.degree with hlt | hge
  · have hnot : d.degree ≤ a.degree → IsUnit d.lead.toZMod := fun hle => absurd hlt (not_lt.mpr hle)
    exact .inr (.inr ⟨⟨hd, hnot⟩, 0, a, divMod_of_degree_lt hd hlt⟩)
  by_cases hunit : IsUnit d.lead.toZMod
  · exact .inr (.inr ⟨⟨hd, fun _ => hunit⟩, exists_divMod hunit a⟩)
  · exact .inr (.inl ⟨⟨hd, hge, hunit⟩, divMod_of_not_isUnit hd hge hunit⟩)

theorem divMod_eq_divisionByZero_iff {a d : Poly m} :
    a.divMod d = .error .divisionByZero ↔ d = 0 := by
  constructor
  · intro h
    rcases divMod_cases a d with ⟨hd, -⟩ | ⟨-, he⟩ | ⟨-, q, r, hok⟩
    · exact hd
    · cases h.symm.trans he
    · cases h.symm.trans hok
  · rintro rfl
    exact divMod_zero a

theorem divMod_eq_notInvertible_iff {a d : Poly m} :
    a.divMod d = .error (.notInvertible (Nat.gcd d.lead.val m.value)) ↔
      d ≠ 0 ∧ d.degree ≤ a.degree ∧ ¬ IsUnit d.lead.toZMod := by
  constructor
  · intro h
    rcases divMod_cases a d with ⟨-, hzero⟩ | ⟨hd, -⟩ | ⟨-, q, r, hok⟩
    · cases h.symm.trans hzero
    · exact hd
    · cases h.symm.trans hok
  · rintro ⟨hd, hdegree, hunit⟩
    exact divMod_of_not_isUnit hd hdegree hunit

theorem exists_divMod_iff {a d : Poly m} :
    (∃ q r, a.divMod d = .ok (q, r)) ↔
      d ≠ 0 ∧ (d.degree ≤ a.degree → IsUnit d.lead.toZMod) := by
  rcases divMod_cases a d with ⟨hd, he⟩ | ⟨⟨hd, hdegree, hunit⟩, he⟩ | ⟨hd, hok⟩
  · rw [he]
    simp [hd]
  · rw [he]
    simp [hdegree, hunit]
  · exact ⟨fun _ => hd, fun _ => hok⟩

/-- Over any modulus, a division fails for one of two reasons, and a result is a quotient and a
remainder of smaller degree. Where the leading coefficient of the divisor is a unit there are no
others. -/
theorem divMod_euclidean (m : Modulus) (a d : Poly m) :
    (a.divMod d = .error .divisionByZero ↔ d = 0) ∧
    (a.divMod d = .error (.notInvertible (Nat.gcd d.lead.val m.value)) ↔
      d ≠ 0 ∧ d.degree ≤ a.degree ∧ ¬ IsUnit d.lead.toZMod) ∧
    ((∃ q r, a.divMod d = .ok (q, r)) ↔ d ≠ 0 ∧ (d.degree ≤ a.degree → IsUnit d.lead.toZMod)) ∧
    (∀ q r, a.divMod d = .ok (q, r) → a = q * d + r ∧ r.degree < d.degree) ∧
    (IsUnit d.lead.toZMod → ∀ q r, a = q * d + r → r.degree < d.degree →
      a.divMod d = .ok (q, r)) := by
  refine ⟨divMod_eq_divisionByZero_iff, divMod_eq_notInvertible_iff, exists_divMod_iff, ?_, ?_⟩
  · intro q r h
    refine ⟨toPolynomial_injective ?_, degree_lt_degree_iff.mpr (size_snd_lt_of_divMod h)⟩
    rw [toPolynomial_add, toPolynomial_mul, eq_mul_add_of_divMod h]
  · intro hunit q r h hdegree
    refine divMod_unique hunit ?_ (degree_lt_degree_iff.mp hdegree)
    rw [h, toPolynomial_add, toPolynomial_mul]

/-- Modulo six, nothing of its degree can be divided by `2 * x + 1`, but `x ^ 2 + 3` can be by
`5 * x + 1`, in one way. -/
theorem divMod_euclidean_six :
    let m : Modulus := ⟨6, by decide⟩
    let a := ofInts m [3, 0, 1]
    let d := ofInts m [1, 5]
    IsUnit d.lead.toZMod ∧
      (∀ q r, a = q * d + r → r.degree < d.degree → q = ofInts m [5, 5] ∧ r = ofInts m [4]) ∧
      a.divMod (ofInts m [1, 2]) = .error (.notInvertible 2) := by
  intro m a d
  have hunit : IsUnit d.lead.toZMod := by
    rw [Residue.isUnit_toZMod_iff]
    decide
  have hrun : a.divMod d = .ok (ofInts m [5, 5], ofInts m [4]) := by decide +kernel
  obtain ⟨-, -, -, -, honly⟩ := divMod_euclidean m a d
  obtain ⟨-, hrefused, -⟩ := divMod_euclidean m a (ofInts m [1, 2])
  refine ⟨hunit, fun q r h hdegree => ?_, ?_⟩
  · have hpair := Except.ok.inj ((honly hunit q r h hdegree).symm.trans hrun)
    exact ⟨congrArg Prod.fst hpair, congrArg Prod.snd hpair⟩
  · have hfactor : Nat.gcd (ofInts m [1, 2]).lead.val m.value = 2 := by decide
    have hnot : ¬ IsUnit (ofInts m [1, 2]).lead.toZMod := by
      rw [Residue.isUnit_toZMod_iff]
      decide
    rw [hfactor] at hrefused
    exact hrefused.mpr ⟨by decide, by decide, hnot⟩

/-! ## Prime moduli -/

section Prime

variable [Fact m.value.Prime]

/-- The order of the operands does not matter: what divides both is the same, and there is only one
monic polynomial with these divisors. -/
theorem gcd_comm (a b : Poly m) : a.gcd b = b.gcd a := by
  obtain ⟨g, hg, hdvd, hmonic⟩ := exists_gcd a b
  obtain ⟨g', hg', hdvd', hmonic'⟩ := exists_gcd b a
  by_cases hne : a.toPolynomial ≠ 0 ∨ b.toPolynomial ≠ 0
  · have hle : g.toPolynomial ∣ g'.toPolynomial := by
      rw [hdvd', and_comm, ← hdvd]
    have hge : g'.toPolynomial ∣ g.toPolynomial := by
      rw [hdvd, and_comm, ← hdvd']
    have heq := eq_of_monic_of_associated (hmonic hne) (hmonic' hne.symm)
      (associated_of_dvd_dvd hle hge)
    rw [hg, hg', toPolynomial_injective heq]
  · have hzero : a.toPolynomial = 0 ∧ b.toPolynomial = 0 := by
      simpa only [not_or, not_not] using hne
    have hab : a = b := toPolynomial_injective (hzero.1.trans hzero.2.symm)
    rw [hab]

end Prime

/-- Over a prime modulus any two polynomials have a greatest common divisor, whatever their order.
It is monic, but for that of two zeros. -/
theorem gcd_greatest (m : Modulus) (hm : m.value.Prime) (a b : Poly m) :
    ∃ g, a.gcd b = .ok g ∧ b.gcd a = .ok g ∧
      g.toPolynomial ∣ a.toPolynomial ∧ g.toPolynomial ∣ b.toPolynomial ∧
      (∀ d, d ∣ a.toPolynomial → d ∣ b.toPolynomial → d ∣ g.toPolynomial) ∧
      (a ≠ 0 ∨ b ≠ 0 → g.isMonic = true) ∧ (a = 0 → b = 0 → g = 0) := by
  have : Fact m.value.Prime := ⟨hm⟩
  obtain ⟨g, hg, hdvd, hmonic⟩ := exists_gcd a b
  obtain ⟨ha, hb⟩ := (hdvd g.toPolynomial).mp dvd_rfl
  refine ⟨g, hg, ?_, ha, hb, fun d hda hdb => (hdvd d).mpr ⟨hda, hdb⟩, fun hne => ?_, ?_⟩
  · rw [gcd_comm, hg]
  · rw [isMonic_iff]
    apply hmonic
    rwa [Ne, Ne, toPolynomial_eq_zero_iff, toPolynomial_eq_zero_iff]
  · rintro rfl rfl
    have hzero : (0 : (ZMod m.value)[X]) ∣ g.toPolynomial :=
      (hdvd 0).mpr ⟨dvd_rfl, dvd_rfl⟩
    exact toPolynomial_eq_zero_iff.mp (zero_dvd_iff.mp hzero)

/-- Modulo seven, `3 * (x - 2) ^ 2` and `5 * (x - 2) * (x - 4)` have the divisor `x - 2` in
common. -/
theorem gcd_greatest_seven :
    let m : Modulus := ⟨7, by decide⟩
    let a := ofInts m [12, -12, 3]
    let b := ofInts m [40, -30, 5]
    let g := ofInts m [-2, 1]
    Nat.Prime 7 ∧ a.gcd b = .ok g ∧ b.gcd a = .ok g ∧ g.isMonic = true ∧
      ∀ d, d ∣ a.toPolynomial → d ∣ b.toPolynomial → d ∣ g.toPolynomial := by
  intro m a b g
  have hprime : Nat.Prime 7 := by norm_num
  have ha : a ≠ 0 := by decide
  have hrun : a.gcd b = .ok g := by decide +kernel
  obtain ⟨g', hab, hba, -, -, hgreatest, hmonic, -⟩ := gcd_greatest m hprime a b
  have heq : g' = g := Except.ok.inj (hab.symm.trans hrun)
  rw [heq] at hba hgreatest hmonic
  exact ⟨hprime, hrun, hba, hmonic (.inl ha), hgreatest⟩

end MultisetRecovery.Poly

import Mathlib.Data.Int.GCD
import MultisetRecovery.Proofs.Residue

/-!
# Inverses of integers

An integer has an inverse modulo `m` exactly if it is coprime to `m`. Both ways of inverting say so:
one integer at a time by the Euclidean algorithm (`inverse_ofInt_exact`), and a list of them by one
inversion of their product (`invertAll_entrywise`). Over a composite modulus a list without zeros
may have a product that is no unit, or that is zero; then an entry shares a factor with the modulus,
and its own inversion fails as well.
-/

namespace MultisetRecovery

/-- The errors that say that there is no inverse. -/
inductive ArithmeticError.NoInverse : ArithmeticError → Prop where
  | zero : NoInverse .invertZero
  | zeroAt (i : ℕ) : NoInverse (.invertZeroAt i)
  | commonFactor (g : ℕ) : NoInverse (.notInvertible g)

namespace Residue

variable {m : Modulus}

/-! ## One integer -/

theorem ofInt_eq_zero_iff {a : ℤ} : ofInt m a = 0 ↔ (m.value : ℤ) ∣ a := by
  rw [← toZMod_eq_zero_iff, toZMod_ofInt, ZMod.intCast_zmod_eq_zero_iff_dvd]

theorem gcd_val_ofInt (a : ℤ) : Nat.gcd (ofInt m a).val m.value = Int.gcd a m.value := by
  rw [← Int.gcd_natCast_natCast, val_ofInt, Int.gcd_emod]

theorem isUnit_toZMod_ofInt_iff {a : ℤ} : IsUnit (ofInt m a).toZMod ↔ Int.gcd a m.value = 1 := by
  rw [isUnit_toZMod_iff, Nat.Coprime, gcd_val_ofInt]

/-- Among the least representatives, this residue alone has the product one with the integer. -/
def IsInverseOf (a : ℤ) (b : Residue m) : Prop :=
  ∀ v : ℤ, m.IsCanonical v ∧ a * v ≡ 1 [ZMOD m.value] ↔ v = b.val

theorem mul_modEq_one_iff {a v : ℤ} :
    a * v ≡ 1 [ZMOD m.value] ↔ (ofInt m a).inverse = .ok (ofInt m v) := by
  rw [inverse_eq_ok_iff, toZMod_ofInt, toZMod_ofInt, ← ZMod.intCast_eq_intCast_iff]
  simp

theorem isInverseOf_of_inverse {a : ℤ} {b : Residue m} (h : (ofInt m a).inverse = .ok b) :
    IsInverseOf a b := by
  intro v
  rw [mul_modEq_one_iff, h, Except.ok.injEq]
  constructor
  · rintro ⟨hv, rfl⟩
    exact (val_ofInt_of_isCanonical hv).symm
  · rintro rfl
    exact ⟨isCanonical_val b, (ofInt_val b).symm⟩

theorem exists_inverse_error {a : ℤ} (h : Int.gcd a m.value ≠ 1) :
    ∃ e, (ofInt m a).inverse = .error e := by
  cases hinverse : (ofInt m a).inverse with
  | error e => exact ⟨e, rfl⟩
  | ok b =>
    have hunit : IsUnit (ofInt m a).toZMod := .of_mul_eq_one _ (inverse_eq_ok_iff.mp hinverse)
    exact absurd (isUnit_toZMod_ofInt_iff.mp hunit) h

theorem noInverse_of_inverse {a : Residue m} {e : ArithmeticError} (h : a.inverse = .error e) :
    e.NoInverse := by
  by_cases hzero : a = 0
  · rw [hzero] at h
    obtain rfl := Except.error.inj h
    exact .zero
  by_cases hunit : IsUnit a.toZMod
  · obtain ⟨b, hb⟩ := exists_inverse hunit
    cases h.symm.trans hb
  · rw [inverse_eq_error hzero hunit] at h
    obtain rfl := Except.error.inj h
    exact .commonFactor _

/-- Any integer, negative or not below the modulus, has the inverse that is computed if it is
coprime to the modulus. Otherwise it is a multiple of the modulus, or the factor that they share is
reported. -/
theorem inverse_ofInt_exact (m : Modulus) (a : ℤ) :
    (Int.gcd a m.value = 1 → ∃ b, (ofInt m a).inverse = .ok b ∧ IsInverseOf a b) ∧
    ((m.value : ℤ) ∣ a → (ofInt m a).inverse = .error .invertZero ∧
      ArithmeticError.invertZero.message = "Cannot invert zero") ∧
    (Int.gcd a m.value ≠ 1 → ¬ (m.value : ℤ) ∣ a →
      (ofInt m a).inverse = .error (.notInvertible (Int.gcd a m.value)) ∧
      (ArithmeticError.notInvertible (Int.gcd a m.value)).message =
        "No inverse exists (gcd = " ++ toString (Int.gcd a m.value) ++ ")") := by
  refine ⟨fun hcoprime => ?_, fun hdvd => ?_, fun hcommon hndvd => ?_⟩
  · obtain ⟨b, hb⟩ := exists_inverse (isUnit_toZMod_ofInt_iff.mpr hcoprime)
    exact ⟨b, hb, isInverseOf_of_inverse hb⟩
  · rw [ofInt_eq_zero_iff.mpr hdvd]
    exact ⟨rfl, rfl⟩
  · have hzero : ofInt m a ≠ 0 := fun h => hndvd (ofInt_eq_zero_iff.mp h)
    have hunit : ¬ IsUnit (ofInt m a).toZMod := fun h => hcommon (isUnit_toZMod_ofInt_iff.mp h)
    refine ⟨?_, rfl⟩
    rw [inverse_eq_error hzero hunit, gcd_val_ofInt]

example : (ofInt ⟨35, by decide⟩ (-2)).inverse = .ok ⟨17, by decide⟩ := by decide +kernel

/-! ## Many integers -/

/-- Whatever is peeled off, the one inversion is that of the whole product. -/
theorem inverse_prod_of_peel {vs : List ℤ} {a : ℤ} {e : ArithmeticError}
    (h : peel (ofInt m a) (vs.map (ofInt m)) = .error e) :
    (ofInt m (a * vs.prod)).inverse = .error e := by
  induction vs generalizing a with
  | nil =>
    rcases Except.bind_eq_error_iff.mp h with hinverse | ⟨b, -, hb⟩
    · rwa [List.prod_nil, mul_one]
    · cases hb
  | cons v vs ih =>
    rcases Except.bind_eq_error_iff.mp h with hrest | ⟨r, -, hr⟩
    · have hmul : ofInt m a * ofInt m v = ofInt m (a * v) := toZMod_injective (by simp)
      rw [hmul] at hrest
      rw [List.prod_cons, ← mul_assoc]
      exact ih hrest
    · cases hr

/-- A batch that is not inverted holds a multiple of the modulus, the first of which is named, or
else its product is what has no inverse. -/
theorem invertAll_error {vs : List ℤ} {e : ArithmeticError}
    (h : invertAll (vs.map (ofInt m)) = .error e) :
    (∃ i, vs.findIdx? (fun v => (m.value : ℤ) ∣ v) = some i ∧ e = .invertZeroAt i) ∨
      (∀ v ∈ vs, ¬ (m.value : ℤ) ∣ v) ∧ (ofInt m vs.prod).inverse = .error e := by
  have hfind : (vs.map (ofInt m)).findIdx? (· = 0) = vs.findIdx? fun v => (m.value : ℤ) ∣ v := by
    rw [List.findIdx?_map]
    congr 1
    funext v
    exact decide_eq_decide.mpr ofInt_eq_zero_iff
  unfold invertAll at h
  rw [hfind] at h
  split at h
  · rename_i i hi
    exact .inl ⟨i, hi, (Except.error.inj h).symm⟩
  · rename_i hnone
    have hone : ofInt m 1 = 1 := toZMod_injective (by simp)
    refine .inr ⟨by simpa using hnone, ?_⟩
    rcases Except.bind_eq_error_iff.mp h with hpeel | ⟨r, -, hr⟩
    · rw [← one_mul vs.prod]
      apply inverse_prod_of_peel
      rwa [hone]
    · cases hr

theorem areInverses_map_ofInt_iff {vs : List ℤ} {is : List (Residue m)} :
    AreInverses (vs.map (ofInt m)) is ↔
      List.Forall₂ (fun v i => (ofInt m v).inverse = .ok i) vs is := by
  simp only [AreInverses, List.forall₂_map_left_iff, inverse_eq_ok_iff]

theorem exists_invertAll_ofInt_iff {vs : List ℤ} :
    (∃ is, invertAll (vs.map (ofInt m)) = .ok is) ↔ ∀ v ∈ vs, Int.gcd v m.value = 1 := by
  constructor
  · rintro ⟨is, his⟩ v hv
    rw [← isUnit_toZMod_ofInt_iff]
    exact (areInverses_of_invertAll his).isUnit _ (List.mem_map_of_mem hv)
  · intro h
    apply exists_invertAll
    rw [List.forall_mem_map]
    exact fun v hv => isUnit_toZMod_ofInt_iff.mpr (h v hv)

theorem noInverse_of_invertAll {vs : List ℤ} {e : ArithmeticError}
    (h : invertAll (vs.map (ofInt m)) = .error e) : e.NoInverse := by
  rcases invertAll_error h with ⟨i, -, rfl⟩ | ⟨-, hprod⟩
  · exact .zeroAt i
  · exact noInverse_of_inverse hprod

/-- A batch of integers is inverted exactly if each of them is coprime to the modulus, and then
entry by entry. Otherwise one of its entries has no inverse on its own either; the error is about
the first multiple of the modulus, or without one about the product. -/
theorem invertAll_entrywise (m : Modulus) (vs : List ℤ) :
    let batch := invertAll (vs.map (ofInt m))
    ((∃ is, batch = .ok is) ↔ ∀ v ∈ vs, Int.gcd v m.value = 1) ∧
    (∀ is, batch = .ok is ↔ List.Forall₂ (fun v i => (ofInt m v).inverse = .ok i) vs is) ∧
    (∀ is, batch = .ok is → List.Forall₂ IsInverseOf vs is) ∧
    ∀ e, batch = .error e → e.NoInverse ∧
      (∃ v ∈ vs, ∃ e', (ofInt m v).inverse = .error e' ∧ e'.NoInverse) ∧
      ((∃ i, vs.findIdx? (fun v => (m.value : ℤ) ∣ v) = some i ∧ e = .invertZeroAt i) ∨
        (∀ v ∈ vs, ¬ (m.value : ℤ) ∣ v) ∧ (ofInt m vs.prod).inverse = .error e) := by
  intro batch
  have hentries : ∀ is, batch = .ok is ↔
      List.Forall₂ (fun v i => (ofInt m v).inverse = .ok i) vs is := fun is =>
    invertAll_eq_ok_iff.trans areInverses_map_ofInt_iff
  refine ⟨exists_invertAll_ofInt_iff, hentries, fun is his => ?_, fun e he => ?_⟩
  · exact ((hentries is).mp his).imp fun v i => isInverseOf_of_inverse
  · refine ⟨noInverse_of_invertAll he, ?_, invertAll_error he⟩
    have hcommon : ¬ ∀ v ∈ vs, Int.gcd v m.value = 1 := by
      intro hcoprime
      obtain ⟨is, his⟩ := exists_invertAll_ofInt_iff.mpr hcoprime
      cases he.symm.trans his
    obtain ⟨v, hv, hne⟩ := by simpa only [not_forall, exists_prop] using hcommon
    obtain ⟨e', he'⟩ := exists_inverse_error hne
    exact ⟨v, hv, e', he', noInverse_of_inverse he'⟩

/-- Neither two nor three is zero modulo six, but their product is. -/
example : invertAll ([2, 3].map (ofInt ⟨6, by decide⟩)) = .error .invertZero := by decide +kernel

end Residue

end MultisetRecovery

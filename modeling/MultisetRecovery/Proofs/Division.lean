import Mathlib.Algebra.Field.ZMod
import Mathlib.Algebra.Polynomial.FieldDivision
import Mathlib.Algebra.Ring.GeomSum
import MultisetRecovery.Poly.Power
import MultisetRecovery.Proofs.Poly

/-!
# Division, common divisors and powers

Division with remainder, over any modulus, as an equation in `(ZMod m.value)[X]`. It has a value
where the leading coefficient of the divisor is a unit, which over a prime modulus means every
divisor but zero. From there the monic associate, Euclid's algorithm and powers modulo a polynomial
have theirs: over a prime modulus `exists_gcd` gives the monic greatest common divisor, and
`exists_powMod` a power up to a multiple of the modulus.
-/

open Polynomial

namespace MultisetRecovery.Poly

variable {m : Modulus}

/-! ## Long division -/

/-- A list one longer than `low` is what is left after a multiple of `low` has been taken from it,
together with that multiple and its last coefficient. -/
theorem coeffPolynomial_zipWith (k : Residue m) (low as : List (Residue m)) (hne : as ≠ [])
    (h : as.length = low.length + 1) :
    coeffPolynomial as = coeffPolynomial (List.zipWith (Residue.mulAdd (-k)) low as) +
      C k.toZMod * coeffPolynomial low + Polynomial.X ^ low.length * C (as.getLast hne).toZMod := by
  induction low generalizing as with
  | nil =>
    obtain ⟨a, rfl⟩ := List.length_eq_one_iff.mp h
    simp
  | cons l low ih =>
    cases as with
    | nil => exact absurd rfl hne
    | cons a as =>
      have hlen : as.length = low.length + 1 := by simpa using h
      have hne' : as ≠ [] := List.length_pos_iff.mp (by omega)
      rw [List.zipWith_cons_cons, coeffPolynomial_cons, ih as hne' hlen, coeffPolynomial_cons,
        coeffPolynomial_cons, List.getLast_cons hne', List.length_cons, Residue.toZMod_mulAdd,
        Residue.toZMod_neg, C_add, C_mul, C_neg]
      ring

theorem coeffPolynomial_divCoeffs {inv l : Residue m} (hinv : l.toZMod * inv.toZMod = 1)
    (low top cs : List (Residue m)) (htop : top.length = low.length) :
    coeffPolynomial (cs ++ top) =
      coeffPolynomial (divCoeffs inv low top cs).1 * coeffPolynomial (low ++ [l]) +
        coeffPolynomial (divCoeffs inv low top cs).2 := by
  induction cs with
  | nil => simp [divCoeffs]
  | cons c cs ih =>
    have hlen := length_divCoeffs_snd inv low top cs htop
    revert ih hlen
    rw [divCoeffs]
    rcases divCoeffs inv low top cs with ⟨q, r⟩
    intro ih hlen
    simp only at ih hlen ⊢
    have hne : c :: r ≠ [] := List.cons_ne_nil c r
    set last := (c :: r).getLast hne with hlast
    have hstep := coeffPolynomial_zipWith (last * inv) low (c :: r) hne (by simp [hlen])
    have hk : (last * inv).toZMod * l.toZMod = last.toZMod := by
      rw [Residue.toZMod_mul, mul_assoc, mul_comm inv.toZMod, hinv, mul_one]
    rw [coeffPolynomial_append] at ih ⊢
    rw [← hlast, ← hk, C_mul] at hstep
    simp only [coeffPolynomial_append, coeffPolynomial_cons, coeffPolynomial_nil, mul_zero,
      add_zero] at ih hstep ⊢
    rw [List.length_cons]
    linear_combination Polynomial.X * ih + hstep

theorem coeffs_eq_dropLast_append {d : Poly m} (h : 0 < d.size) :
    d.coeffs = d.coeffs.dropLast ++ [d.lead] := by
  have hne : d.coeffs ≠ [] := List.length_pos_iff.mp h
  unfold lead
  rw [List.getLast?_eq_some_getLast hne, Option.getD_some, List.dropLast_append_getLast hne]

/-- A dividend is the multiple of the divisor by the quotient, and the remainder. -/
theorem eq_mul_add_of_divMod {a d q r : Poly m} (h : a.divMod d = .ok (q, r)) :
    a.toPolynomial = q.toPolynomial * d.toPolynomial + r.toPolynomial := by
  unfold divMod at h
  split at h
  · cases h
  rename_i hd
  split at h
  · cases h
    simp
  rename_i hsize
  obtain ⟨inv, hinv, h⟩ := Except.bind_eq_ok_iff.mp h
  have hpos := size_pos_of_isZero_eq_false (by simpa using hd)
  have htop : (a.coeffs.drop (a.size - (d.size - 1))).length = d.coeffs.dropLast.length := by
    rw [List.length_drop, List.length_dropLast]
    unfold size at *
    omega
  have hdiv := coeffPolynomial_divCoeffs (Residue.mul_eq_one_of_inverse hinv) d.coeffs.dropLast
    (a.coeffs.drop (a.size - (d.size - 1))) (a.coeffs.take (a.size - (d.size - 1))) htop
  rw [List.take_append_drop, ← coeffs_eq_dropLast_append hpos] at hdiv
  cases h
  simpa [toPolynomial] using hdiv

theorem isZero_eq_false_of_isUnit_lead {f : Poly m} (hf : IsUnit f.lead.toZMod) :
    f.isZero = false := by
  rw [isZero_eq_false_iff]
  intro h
  rw [← leadingCoeff_toPolynomial, h, leadingCoeff_zero] at hf
  exact not_isUnit_zero hf

theorem isUnit_lead_of_monic {f : Poly m} (hf : f.toPolynomial.Monic) : IsUnit f.lead.toZMod := by
  rw [← leadingCoeff_toPolynomial, hf.leadingCoeff]
  exact isUnit_one

/-- By a divisor whose leading coefficient is a unit, everything can be divided. -/
theorem exists_divMod {d : Poly m} (hd : IsUnit d.lead.toZMod) (a : Poly m) :
    ∃ q r, a.divMod d = .ok (q, r) := by
  obtain ⟨inv, hinv⟩ := Residue.exists_inverse hd
  unfold divMod
  rw [isZero_eq_false_of_isUnit_lead hd]
  by_cases hsize : a.size < d.size
  · exact ⟨0, a, by simp [hsize]⟩
  · rw [if_neg Bool.false_ne_true, if_neg hsize, hinv]
    exact ⟨_, _, rfl⟩

/-- A remainder is smaller than the divisor and differs from the dividend by a multiple of it. -/
theorem exists_mod {d : Poly m} (hd : IsUnit d.lead.toZMod) (a : Poly m) :
    ∃ r, a.mod d = .ok r ∧ r.size < d.size ∧ d.toPolynomial ∣ a.toPolynomial - r.toPolynomial := by
  obtain ⟨q, r, h⟩ := exists_divMod hd a
  refine ⟨r, by simp [mod, h], size_snd_lt_of_divMod h, q.toPolynomial, ?_⟩
  rw [eq_mul_add_of_divMod h]
  ring

/-- Multiples of a polynomial whose leading coefficient is a unit have the degree that they have
over a field. -/
theorem degree_mul_of_isUnit_lead {d : Poly m} (hd : IsUnit d.lead.toZMod)
    (q : (ZMod m.value)[X]) :
    (q * d.toPolynomial).degree = q.degree + d.toPolynomial.degree := by
  by_cases hq : q = 0
  · simp [hq]
  · apply degree_mul'
    rw [leadingCoeff_toPolynomial, Ne, hd.mul_left_eq_zero]
    exact leadingCoeff_ne_zero.mpr hq

/-- There is only one quotient with a remainder that is smaller than the divisor. -/
theorem divMod_unique {a d q r : Poly m} (hd : IsUnit d.lead.toZMod)
    (h : a.toPolynomial = q.toPolynomial * d.toPolynomial + r.toPolynomial)
    (hr : r.size < d.size) : a.divMod d = .ok (q, r) := by
  obtain ⟨q', r', hdiv⟩ := exists_divMod hd a
  have hr' := size_lt_size_iff.mp (size_snd_lt_of_divMod hdiv)
  have hspec := eq_mul_add_of_divMod hdiv
  have hdiff : (q'.toPolynomial - q.toPolynomial) * d.toPolynomial =
      r.toPolynomial - r'.toPolynomial := by
    linear_combination h - hspec
  have hlt : (r.toPolynomial - r'.toPolynomial).degree < d.toPolynomial.degree :=
    (degree_sub_le _ _).trans_lt (max_lt (size_lt_size_iff.mp hr) hr')
  have hq : q'.toPolynomial - q.toPolynomial = 0 := by
    by_contra hne
    rw [← hdiff, degree_mul_of_isUnit_lead hd, degree_eq_natDegree hne] at hlt
    have hd0 : d.toPolynomial ≠ 0 := isZero_eq_false_iff.mp (isZero_eq_false_of_isUnit_lead hd)
    rw [degree_eq_natDegree hd0] at hlt
    norm_cast at hlt
    omega
  rw [hq, zero_mul, eq_comm, sub_eq_zero] at hdiff
  rw [hdiv, toPolynomial_injective (sub_eq_zero.mp hq), toPolynomial_injective hdiff]

/-- The degree of a dividend is that of the quotient and that of the divisor together. -/
theorem degree_eq_add_of_divMod {a d q r : Poly m} (hd : IsUnit d.lead.toZMod)
    (hsize : d.size ≤ a.size) (h : a.divMod d = .ok (q, r)) : a.degree = q.degree + d.degree := by
  have hspec := eq_mul_add_of_divMod h
  have hr := size_lt_size_iff.mp (size_snd_lt_of_divMod h)
  have hd0 : d.toPolynomial ≠ 0 := isZero_eq_false_iff.mp (isZero_eq_false_of_isUnit_lead hd)
  have hq0 : q.toPolynomial ≠ 0 := by
    intro hq
    rw [hq, zero_mul, zero_add] at hspec
    rw [← hspec, ← size_lt_size_iff] at hr
    omega
  have ha0 : a.toPolynomial ≠ 0 := by
    rw [Ne, ← size_eq_zero_iff] at hd0 ⊢
    omega
  have hmul := degree_mul_of_isUnit_lead hd q.toPolynomial
  have hle : d.toPolynomial.degree ≤ (q.toPolynomial * d.toPolynomial).degree := by
    rw [hmul, degree_eq_natDegree hq0, degree_eq_natDegree hd0]
    exact_mod_cast Nat.le_add_left _ _
  have hdeg : a.toPolynomial.degree = q.toPolynomial.degree + d.toPolynomial.degree := by
    rw [hspec, degree_add_eq_left_of_degree_lt (hr.trans_le hle), hmul]
  rw [degree_eq_natDegree ha0, degree_eq_natDegree hq0, degree_eq_natDegree hd0] at hdeg
  rw [degree_eq ha0, degree_eq hq0, degree_eq hd0]
  exact_mod_cast hdeg

/-! ## Division by a linear polynomial -/

theorem coeffPolynomial_tailValues (r : Residue m) (cs : List (Residue m)) :
    coeffPolynomial cs =
      (Polynomial.X - C r.toZMod) * coeffPolynomial (tailValues r cs).tail +
        C ((tailValues r cs).headD 0).toZMod := by
  induction cs with
  | nil => simp [tailValues]
  | cons c cs ih =>
    rw [tailValues, List.tail_cons, List.headD_cons, coeffPolynomial_cons, Residue.toZMod_mulAdd,
      C_add, C_mul]
    have hvs : coeffPolynomial (tailValues r cs) = C ((tailValues r cs).headD 0).toZMod +
        Polynomial.X * coeffPolynomial (tailValues r cs).tail := by
      cases tailValues r cs with
      | nil => simp
      | cons v vs => simp
    rw [hvs]
    linear_combination Polynomial.X * ih

/-- Division by `x - r` leaves a constant. -/
theorem eq_mul_add_deflate (f : Poly m) (r : Residue m) :
    f.toPolynomial = (Polynomial.X - C r.toZMod) * (f.deflate r).1.toPolynomial +
      C (f.deflate r).2.toZMod := by
  rw [deflate, toPolynomial_ofCoeffs]
  exact coeffPolynomial_tailValues r f.coeffs

/-- The constant that is left is the value at `r`. -/
theorem deflate_snd (f : Poly m) (r : Residue m) : (f.deflate r).2 = f.eval r := by
  apply Residue.toZMod_injective
  rw [toZMod_eval, eq_mul_add_deflate f r]
  simp

/-! ## The monic associate -/

/-- The monic associate is a unit multiple. -/
theorem monic_spec {f g : Poly m} (h : f.monic = .ok g) :
    g.toPolynomial.Monic ∧ ∃ u v : ZMod m.value, u * v = 1 ∧
      g.toPolynomial = C u * f.toPolynomial := by
  unfold monic at h
  split at h
  · cases h
  split at h
  · rename_i hf
    cases h
    exact ⟨isMonic_iff.mp hf, 1, 1, by simp, by simp⟩
  · obtain ⟨inv, hinv, h⟩ := Except.bind_eq_ok_iff.mp h
    cases h
    have hmul := Residue.mul_eq_one_of_inverse hinv
    rw [toPolynomial_scale]
    refine ⟨?_, inv.toZMod, f.lead.toZMod, by rw [mul_comm, hmul], rfl⟩
    apply monic_C_mul_of_mul_leadingCoeff_eq_one
    rw [leadingCoeff_toPolynomial, mul_comm, hmul]

theorem monic_eq_ok {f : Poly m} (hf : f.toPolynomial.Monic) : f.monic = .ok f := by
  rw [monic, isZero_eq_false_iff.mpr hf.ne_zero, if_neg Bool.false_ne_true, isMonic_iff.mpr hf,
    if_pos rfl]

theorem exists_monic {f : Poly m} (hf : IsUnit f.lead.toZMod) : ∃ g, f.monic = .ok g := by
  obtain ⟨inv, hinv⟩ := Residue.exists_inverse hf
  unfold monic
  rw [isZero_eq_false_of_isUnit_lead hf]
  by_cases hm : f.isMonic = true
  · exact ⟨f, by simp [hm]⟩
  · exact ⟨f.scale inv, by simp [hm, hinv]⟩

/-! ## Powers -/

/-- One bit of the exponent: the accumulator takes the base as a factor if the bit is set. -/
theorem powModFrom_step (f acc base : Poly m) {k : ℕ} (hk : k ≠ 0) :
    powModFrom f acc base k =
      (if k % 2 = 1 then (acc * base).mod f else .ok acc) >>= fun acc' =>
        (base * base).mod f >>= fun base' => powModFrom f acc' base' (k / 2) := by
  rw [powModFrom, if_neg hk]
  split <;> rfl

/-- The accumulator after one bit of the exponent. -/
theorem exists_accumulator {f : Poly m} (hf : IsUnit f.lead.toZMod) (acc base : Poly m) (k : ℕ)
    (hacc : acc.size < f.size) :
    ∃ acc', (if k % 2 = 1 then (acc * base).mod f else .ok acc) = .ok acc' ∧
      acc'.size < f.size ∧
      f.toPolynomial ∣ acc.toPolynomial * base.toPolynomial ^ (k % 2) - acc'.toPolynomial := by
  rcases Nat.mod_two_eq_zero_or_one k with hbit | hbit
  · exact ⟨acc, by simp [hbit], hacc, by simp [hbit]⟩
  · obtain ⟨acc', h, hsize, hdvd⟩ := exists_mod hf (acc * base)
    rw [toPolynomial_mul] at hdvd
    exact ⟨acc', by rw [if_pos hbit, h], hsize, by rwa [hbit, pow_one]⟩

/-- Repeated squaring keeps `acc * base ^ k` up to a multiple of the modulus. -/
theorem exists_powModFrom {f : Poly m} (hf : IsUnit f.lead.toZMod) (acc base : Poly m) (k : ℕ)
    (hacc : acc.size < f.size) :
    ∃ r, powModFrom f acc base k = .ok r ∧ r.size < f.size ∧
      f.toPolynomial ∣ acc.toPolynomial * base.toPolynomial ^ k - r.toPolynomial := by
  induction k using Nat.strong_induction_on generalizing acc base with
  | _ k ih =>
    by_cases hk : k = 0
    · refine ⟨acc, ?_, hacc, by simp [hk]⟩
      rw [powModFrom, if_pos hk]
    obtain ⟨base', hbase, -, hsquare⟩ := exists_mod hf (base * base)
    obtain ⟨acc', hacc', hsize, hodd⟩ := exists_accumulator hf acc base k hacc
    obtain ⟨r, hr, hrsize, hrdvd⟩ := ih (k / 2) (by omega) acc' base' hsize
    refine ⟨r, ?_, hrsize, ?_⟩
    · rw [powModFrom_step f acc base hk, hacc', Except.ok_bind, hbase, Except.ok_bind, hr]
    · rw [toPolynomial_mul] at hsquare
      have hpow := hsquare.trans (sub_dvd_pow_sub_pow _ _ (k / 2))
      have hsum := dvd_add (dvd_mul_sub_mul hodd hpow) hrdvd
      rwa [sub_add_sub_cancel, mul_assoc, ← pow_eq_pow_mod_two_mul] at hsum

/-- A power modulo a polynomial whose leading coefficient is a unit is the remainder of the
power. -/
theorem exists_powMod {f : Poly m} (hf : IsUnit f.lead.toZMod) (a : Poly m) (k : ℕ) :
    ∃ r, a.powMod k f = .ok r ∧ r.size < f.size ∧
      f.toPolynomial ∣ a.toPolynomial ^ k - r.toPolynomial := by
  obtain ⟨one, hone, hsize, hdvd₁⟩ := exists_mod hf 1
  obtain ⟨base, hbase, -, hdvd₂⟩ := exists_mod hf a
  obtain ⟨r, hr, hrsize, hdvd₃⟩ := exists_powModFrom hf one base k hsize
  refine ⟨r, by rw [powMod, hone, Except.ok_bind, hbase, Except.ok_bind, hr], hrsize, ?_⟩
  have hpow := hdvd₂.trans (sub_dvd_pow_sub_pow _ _ k)
  have hsum := dvd_add (dvd_mul_sub_mul hdvd₁ hpow) hdvd₃
  rwa [sub_add_sub_cancel, toPolynomial_one, one_mul] at hsum

/-! ## The greatest common divisor -/

/-- One step of Euclid's algorithm. -/
theorem gcd_of_divMod {a b q r : Poly m} (hb : b.toPolynomial ≠ 0)
    (h : a.divMod b = .ok (q, r)) : a.gcd b = b.gcd r := by
  rw [gcd, if_neg (by rwa [isZero_iff])]
  split
  · rename_i e he
    cases he.symm.trans h
  · rename_i qr hok
    cases hok.symm.trans h
    rfl

/-- A step keeps the common divisors. -/
theorem dvd_and_dvd_iff_of_divMod {a b q r : Poly m} (h : a.divMod b = .ok (q, r))
    (d : (ZMod m.value)[X]) :
    (d ∣ b.toPolynomial ∧ d ∣ r.toPolynomial) ↔ (d ∣ a.toPolynomial ∧ d ∣ b.toPolynomial) := by
  rw [eq_mul_add_of_divMod h]
  constructor
  · rintro ⟨hb, hr⟩
    exact ⟨dvd_add (hb.mul_left _) hr, hb⟩
  · rintro ⟨ha, hb⟩
    exact ⟨hb, (dvd_add_right (hb.mul_left _)).mp ha⟩

/-- Over any modulus, what the algorithm ends with is monic or zero. -/
theorem gcd_monic {a b g : Poly m} (h : a.gcd b = .ok g) (hg : g.toPolynomial ≠ 0) :
    g.toPolynomial.Monic := by
  fun_induction gcd a b with
  | case1 a b hb ha =>
    cases h
    exact absurd (isZero_iff.mp ha) hg
  | case2 a b hb ha => exact (monic_spec h).1
  | case3 a b hb e he => cases h
  | case4 a b hb qr hok ih => exact ih h

section Prime

variable [Fact m.value.Prime]

/-- Over a prime modulus every leading coefficient is a unit. -/
theorem isUnit_lead {f : Poly m} (hf : f.toPolynomial ≠ 0) : IsUnit f.lead.toZMod := by
  rw [← leadingCoeff_toPolynomial]
  exact .mk0 _ (leadingCoeff_ne_zero.mpr hf)

/-- The algorithm ends with the monic associate. -/
theorem exists_gcd_of_eq_zero (a : Poly m) {b : Poly m} (hb : b.toPolynomial = 0) :
    ∃ g, a.gcd b = .ok g ∧ (∀ d, d ∣ g.toPolynomial ↔ d ∣ a.toPolynomial) ∧
      (a.toPolynomial ≠ 0 → g.toPolynomial.Monic) := by
  have hbz := isZero_iff.mpr hb
  by_cases ha : a.toPolynomial = 0
  · refine ⟨a, ?_, fun _ => Iff.rfl, absurd ha⟩
    rw [gcd, if_pos hbz, if_pos (isZero_iff.mpr ha)]
  · obtain ⟨g, hg⟩ := exists_monic (isUnit_lead ha)
    obtain ⟨hmonic, u, v, huv, hgu⟩ := monic_spec hg
    have hunit : IsUnit (C u) := isUnit_C.mpr (.of_mul_eq_one v huv)
    refine ⟨g, ?_, fun d => ?_, fun _ => hmonic⟩
    · rw [gcd, if_pos hbz, if_neg (by rwa [isZero_iff]), hg]
    · rw [hgu, hunit.dvd_mul_left]

/-- Over a prime modulus there is a greatest common divisor: the polynomials that divide it are
those that divide both operands. It is monic unless both are zero. -/
theorem exists_gcd (a b : Poly m) :
    ∃ g, a.gcd b = .ok g ∧
      (∀ d, d ∣ g.toPolynomial ↔ d ∣ a.toPolynomial ∧ d ∣ b.toPolynomial) ∧
      (a.toPolynomial ≠ 0 ∨ b.toPolynomial ≠ 0 → g.toPolynomial.Monic) := by
  induction hn : b.size using Nat.strong_induction_on generalizing a b with
  | _ n ih =>
    subst hn
    by_cases hb : b.toPolynomial = 0
    · obtain ⟨g, hg, hdvd, hmonic⟩ := exists_gcd_of_eq_zero a hb
      refine ⟨g, hg, fun d => ?_, fun hne => hmonic (hne.resolve_right (absurd hb))⟩
      rw [hdvd, hb]
      exact (and_iff_left (dvd_zero d)).symm
    · obtain ⟨q, r, hqr⟩ := exists_divMod (isUnit_lead hb) a
      obtain ⟨g, hg, hdvd, hmonic⟩ := ih r.size (size_snd_lt_of_divMod hqr) b r rfl
      refine ⟨g, by rw [gcd_of_divMod hb hqr, hg], fun d => ?_, fun _ => hmonic (.inl hb)⟩
      rw [hdvd, dvd_and_dvd_iff_of_divMod hqr]

end Prime

end MultisetRecovery.Poly

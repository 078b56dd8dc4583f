import Mathlib.RingTheory.MvPolynomial.Symmetric.NewtonIdentities
import Mathlib.RingTheory.Polynomial.Vieta
import MultisetRecovery.Proofs.Poly
import MultisetRecovery.SymmetricFunction

/-!
# Newton's identities and Vieta's formulas

The elementary symmetric functions that are computed from power sums satisfy Newton's identities,
over any modulus for which their numbers are units. The identities determine either side by the
other, so the elements of a multiset are the roots of the polynomial that is built from the computed
functions exactly if the given power sums are theirs (`toPolynomial_ofElementary_eq_prod_iff_sums`).
The way from elements to their power sums leads back to the elementary symmetric functions of the
elements.
-/

open Polynomial

namespace MultisetRecovery

variable {m : Modulus}

/-! ## The identities -/

section Newton

variable {R : Type*} [CommRing R]

/-- Newton's identities up to `n`, between power sums `s 1, s 2, …` and elementary symmetric
functions `e 0, e 1, …`. -/
structure NewtonIdentities (s e : ℕ → R) (n : ℕ) : Prop where
  /-- There is one product of no elements. -/
  zero : e 0 = 1
  /-- The identity for `k + 1`. -/
  succ : ∀ k < n,
    ((k + 1 : ℕ) : R) * e (k + 1) = ∑ i ∈ Finset.range (k + 1), (-1) ^ i * s (i + 1) * e (k - i)

namespace NewtonIdentities

variable {s s' e e' : ℕ → R} {n : ℕ}

/-- The power sums and elementary symmetric functions of the elements of a multiset. -/
theorem of_multiset (M : Multiset R) (n : ℕ) :
    NewtonIdentities (fun k => (M.map (· ^ k)).sum) M.esymm n := by
  refine ⟨by simp [Multiset.esymm], fun k _ => ?_⟩
  obtain ⟨l, rfl⟩ : ∃ l : List R, (l : Multiset R) = M := Quot.exists_rep M
  have hl : Finset.univ.val.map l.get = (l : Multiset R) := by
    rw [Fin.univ_val_map, List.ofFn_get]
  have hpsum : ∀ j, MvPolynomial.aeval l.get (MvPolynomial.psum (Fin l.length) R j) =
      ((l : Multiset R).map (· ^ j)).sum := by
    intro j
    rw [MvPolynomial.psum, map_sum, ← hl, Multiset.map_map, Finset.sum_eq_multiset_sum]
    simp
  have hnewton := congrArg (MvPolynomial.aeval l.get)
    (MvPolynomial.mul_esymm_eq_sum (Fin l.length) R (k + 1))
  simp only [map_mul, map_natCast, map_pow, map_neg, map_one, map_sum,
    MvPolynomial.aeval_esymm_eq_multiset_esymm, hpsum, hl] at hnewton
  show ((k + 1 : ℕ) : R) * (l : Multiset R).esymm (k + 1) = _
  rw [hnewton, Finset.sum_filter, Finset.Nat.sum_antidiagonal_eq_sum_range_succ_mk,
    Finset.sum_range_succ, if_neg (lt_irrefl _), add_zero, Finset.mul_sum,
    ← Finset.sum_range_reflect]
  refine Finset.sum_congr rfl fun i hi => ?_
  obtain ⟨d, rfl⟩ := Nat.exists_eq_add_of_le (Nat.lt_succ_iff.mp (Finset.mem_range.mp hi))
  have hd : i + d + 1 - 1 - i = d := by omega
  have hd' : i + d + 1 - d = i + 1 := by omega
  have hd'' : i + d - i = d := by omega
  have hsign : (-1 : R) ^ d * (-1) ^ d = 1 := by rw [← mul_pow, neg_one_mul, neg_neg, one_pow]
  simp only [hd, hd', hd'']
  rw [if_pos (by omega), pow_add, pow_add, pow_add]
  linear_combination ((-1) ^ i * (Multiset.map (fun x => x ^ (i + 1)) (l : Multiset R)).sum *
    (l : Multiset R).esymm d) * hsign

/-- The identities speak of the first `n` values only. -/
theorem congr (h : NewtonIdentities s e n) (hs : ∀ k, 1 ≤ k → k ≤ n → s' k = s k)
    (he : ∀ k ≤ n, e' k = e k) : NewtonIdentities s' e' n := by
  refine ⟨by rw [he 0 n.zero_le, h.zero], fun k hk => ?_⟩
  rw [he (k + 1) hk, h.succ k hk]
  refine Finset.sum_congr rfl fun i hi => ?_
  have hik := Finset.mem_range.mp hi
  rw [hs (i + 1) (by omega) (by omega), he (k - i) (by omega)]

/-- Where `1` to `n` are units, the power sums determine the elementary symmetric functions. -/
theorem elementary_unique (hunit : ∀ k < n, IsUnit ((k + 1 : ℕ) : R))
    (h : NewtonIdentities s e n) (h' : NewtonIdentities s e' n) : ∀ k ≤ n, e k = e' k := by
  intro k
  induction k using Nat.strong_induction_on with
  | _ k ih =>
    intro hk
    cases k with
    | zero => rw [h.zero, h'.zero]
    | succ k =>
      apply (hunit k hk).mul_left_cancel
      rw [h.succ k hk, h'.succ k hk]
      refine Finset.sum_congr rfl fun i _ => ?_
      rw [ih (k - i) (by omega) (by omega)]

/-- The elementary symmetric functions determine the power sums. -/
theorem sums_unique (h : NewtonIdentities s e n) (h' : NewtonIdentities s' e n) :
    ∀ k < n, s (k + 1) = s' (k + 1) := by
  intro k
  induction k using Nat.strong_induction_on with
  | _ k ih =>
    intro hk
    -- The last summand is the one with the power sum in question, by `e 0 = 1`.
    have hsum := (h.succ k hk).symm.trans (h'.succ k hk)
    rw [Finset.sum_range_succ, Finset.sum_range_succ, Nat.sub_self, h.zero, mul_one,
      mul_one] at hsum
    have hfront : ∑ i ∈ Finset.range k, (-1) ^ i * s (i + 1) * e (k - i) =
        ∑ i ∈ Finset.range k, (-1) ^ i * s' (i + 1) * e (k - i) := by
      refine Finset.sum_congr rfl fun i hi => ?_
      have hik := Finset.mem_range.mp hi
      rw [ih i hik (hik.trans hk)]
    rw [hfront, add_right_inj] at hsum
    have hsign : IsUnit ((-1 : R) ^ k) := (isUnit_one.neg).pow k
    exact hsign.mul_left_cancel hsum

end NewtonIdentities
end Newton

/-! ## The recursion -/

/-- The power sum of exponent `k` in a list that begins with the first. -/
def powerSumAt (sums : List (Residue m)) (k : ℕ) : ZMod m.value := (sums.getD (k - 1) 0).toZMod

/-- The elementary symmetric function `e k` in a list that begins with `e 1`. -/
def elementaryAt (es : List (Residue m)) (k : ℕ) : ZMod m.value := ((1 :: es).getD k 0).toZMod

theorem powerSumAt_succ {sums : List (Residue m)} {k : ℕ} (hk : k < sums.length) :
    powerSumAt sums (k + 1) = sums[k].toZMod := by
  rw [powerSumAt, Nat.add_sub_cancel, List.getD_eq_getElem _ _ hk]

@[simp]
theorem elementaryAt_zero (es : List (Residue m)) : elementaryAt es 0 = 1 := by simp [elementaryAt]

theorem elementaryAt_succ {es : List (Residue m)} {k : ℕ} (hk : k < es.length) :
    elementaryAt es (k + 1) = es[k].toZMod := by
  rw [elementaryAt, List.getD_cons_succ, List.getD_eq_getElem _ _ hk]

theorem toZMod_alternatingSum (ps es : List (Residue m)) :
    (alternatingSum ps es).toZMod =
      ∑ i ∈ Finset.range es.length, (-1) ^ i * powerSumAt ps (i + 1) * (es.getD i 0).toZMod := by
  fun_induction alternatingSum ps es with
  | case1 p ps e es ih =>
    rw [Residue.toZMod_sub, Residue.toZMod_mul, ih, List.length_cons, Finset.sum_range_succ',
      sub_eq_add_neg, add_comm, ← Finset.sum_neg_distrib]
    congr 1
    · refine Finset.sum_congr rfl fun i _ => ?_
      simp only [powerSumAt, List.getD_cons_succ, Nat.add_sub_cancel]
      ring
    · simp [powerSumAt]
  | case2 ps es h =>
    cases es with
    | nil => simp
    | cons e es =>
      cases ps with
      | nil => simp [powerSumAt]
      | cons p ps => exact absurd rfl (h p ps e es rfl)

theorem length_elementaryFrom (sums inverses known : List (Residue m)) :
    (elementaryFrom sums inverses known).length = inverses.length := by
  induction inverses generalizing known with
  | nil => rfl
  | cons i inverses ih => simp [elementaryFrom, ih]

/-- Each function that is computed is the alternating sum over all before it, times the inverse of
its number. `es` are all of them in order, those known at the start included. -/
theorem elementaryFrom_getD (sums inverses known es : List (Residue m))
    (hes : es = known.reverse ++ elementaryFrom sums inverses known) (j : ℕ)
    (hj : j < inverses.length) :
    (es.getD (known.length + j) 0).toZMod =
      (∑ i ∈ Finset.range (known.length + j), (-1) ^ i * powerSumAt sums (i + 1) *
        (es.getD (known.length + j - 1 - i) 0).toZMod) * (inverses.getD j 0).toZMod := by
  induction inverses generalizing known j with
  | nil => exact absurd hj (Nat.not_lt_zero j)
  | cons x inverses ih =>
    cases j with
    | zero =>
      have hget : es.getD known.length 0 = alternatingSum sums known * x := by
        rw [hes, elementaryFrom, List.getD_append_right _ _ _ _ (by simp)]
        simp
      rw [Nat.add_zero, hget, Residue.toZMod_mul, toZMod_alternatingSum, List.getD_cons_zero]
      congr 1
      refine Finset.sum_congr rfl fun i hi => ?_
      have hik := Finset.mem_range.mp hi
      rw [hes, List.getD_append _ _ _ _ (by simp; omega), List.getD_reverse _ (by omega)]
      congr 3
      omega
    | succ j =>
      have hstep := ih ((alternatingSum sums known * x) :: known)
        (by rw [hes, elementaryFrom, List.reverse_cons, List.append_assoc]; rfl) j
        (by simpa using hj)
      rw [List.length_cons, Nat.add_right_comm, Nat.add_assoc] at hstep
      rw [hstep, List.getD_cons_succ]

theorem getD_firstNumbers {n k : ℕ} (h : k < n) :
    ((firstNumbers m n).getD k 0).toZMod = ((k + 1 : ℕ) : ZMod m.value) := by
  rw [firstNumbers, List.getD_eq_getElem _ _ (by simpa using h)]
  simp

/-- The elementary symmetric functions are computed from the inverses of their numbers. -/
theorem exists_inverses {sums es : List (Residue m)} (h : elementarySymmetric sums = .ok es) :
    ∃ inverses, Residue.AreInverses (firstNumbers m sums.length) inverses ∧
      es = elementaryFrom sums inverses [1] := by
  unfold elementarySymmetric at h
  split at h
  · rename_i inverses hinv
    cases h
    exact ⟨inverses, Residue.areInverses_of_invertAll hinv, rfl⟩
  · cases h

/-- So these numbers are units. -/
theorem isUnit_of_elementarySymmetric {sums es : List (Residue m)}
    (h : elementarySymmetric sums = .ok es) :
    ∀ k < sums.length, IsUnit ((k + 1 : ℕ) : ZMod m.value) := by
  intro k hk
  obtain ⟨inverses, hinv, -⟩ := exists_inverses h
  have hmul := hinv.mul_getD (k := k) (by simpa [firstNumbers] using hk)
  rw [getD_firstNumbers hk] at hmul
  exact .of_mul_eq_one _ hmul

/-- Where `1` to `n` are units, the elementary symmetric functions are computed. -/
theorem exists_elementarySymmetric {sums : List (Residue m)}
    (h : ∀ k < sums.length, IsUnit ((k + 1 : ℕ) : ZMod m.value)) :
    ∃ es, elementarySymmetric sums = .ok es := by
  have hunits : ∀ x ∈ firstNumbers m sums.length, IsUnit x.toZMod := by
    intro x hx
    obtain ⟨k, hk, rfl⟩ := List.mem_map.mp hx
    rw [Residue.toZMod_ofNat]
    exact h k (List.mem_range.mp hk)
  obtain ⟨inverses, hinv⟩ := Residue.exists_invertAll hunits
  exact ⟨elementaryFrom sums inverses [1], by rw [elementarySymmetric, hinv]⟩

/-- Over a prime modulus they are for fewer elements than residues. -/
theorem exists_elementarySymmetric_of_lt [Fact m.value.Prime] {sums : List (Residue m)}
    (h : sums.length < m.value) : ∃ es, elementarySymmetric sums = .ok es := by
  refine exists_elementarySymmetric fun k hk => ?_
  rw [ZMod.isUnit_iff_coprime]
  exact (Nat.coprime_of_lt_prime (Nat.succ_ne_zero k) (by omega) Fact.out).symm

/-- The last of as many numbers as there are residues is zero. -/
theorem invertAll_firstNumbers (m : Modulus) :
    Residue.invertAll (firstNumbers m m.value) = .error (.invertZeroAt (m.value - 1)) := by
  have hpos := m.value_pos
  have hval : ∀ k (hk : k < (firstNumbers m m.value).length),
      (firstNumbers m m.value)[k].val = (k + 1) % m.value := by
    intro k hk
    simp [firstNumbers]
  have hfind : (firstNumbers m m.value).findIdx? (· = 0) = some (m.value - 1) := by
    rw [List.findIdx?_eq_some_iff_getElem]
    refine ⟨by simp [firstNumbers, hpos], ?_, fun k hk => ?_⟩
    · rw [decide_eq_true_iff, ← Residue.val_inj, hval, Nat.sub_add_cancel hpos, Nat.mod_self]
      rfl
    · rw [decide_eq_true_iff, ← Residue.val_inj, hval, Nat.mod_eq_of_lt (by omega)]
      exact Nat.succ_ne_zero k
  rw [Residue.invertAll, hfind]

theorem elementarySymmetric_of_length_eq {sums : List (Residue m)} (h : sums.length = m.value) :
    elementarySymmetric sums =
      .error (.countNotInvertible m.value m (.invertZeroAt (m.value - 1))) := by
  rw [elementarySymmetric, h, invertAll_firstNumbers]

theorem length_elementarySymmetric {sums es : List (Residue m)}
    (h : elementarySymmetric sums = .ok es) : es.length = sums.length := by
  obtain ⟨inverses, hinv, rfl⟩ := exists_inverses h
  rw [length_elementaryFrom, ← hinv.length_eq, firstNumbers, List.length_map, List.length_range]

/-- What is computed satisfies Newton's identities. -/
theorem newtonIdentities_of_elementarySymmetric {sums es : List (Residue m)}
    (h : elementarySymmetric sums = .ok es) :
    NewtonIdentities (powerSumAt sums) (elementaryAt es) sums.length := by
  obtain ⟨inverses, hinv, hes⟩ := exists_inverses h
  refine ⟨elementaryAt_zero es, fun k hk => ?_⟩
  have hlen : k < (firstNumbers m sums.length).length := by simpa [firstNumbers] using hk
  have hmul := hinv.mul_getD hlen
  rw [getD_firstNumbers hk] at hmul
  have hstep := elementaryFrom_getD sums inverses [1] (1 :: es) (by rw [hes]; rfl) k
    (by rw [← hinv.length_eq]; exact hlen)
  rw [List.length_singleton, Nat.add_comm 1 k, Nat.add_sub_cancel] at hstep
  show _ * ((1 :: es).getD (k + 1) 0).toZMod = _
  rw [hstep, mul_comm, mul_assoc, mul_comm _ ((k + 1 : ℕ) : ZMod m.value), hmul, mul_one]
  rfl

/-! ## The polynomial -/

theorem length_signed (es : List (Residue m)) : (signed es).length = es.length := by
  induction es with
  | nil => rfl
  | cons e es ih => simp [signed, ih]

theorem getD_signed (es : List (Residue m)) (k : ℕ) :
    ((signed es).getD k 0).toZMod = (-1) ^ (k + 1) * elementaryAt es (k + 1) := by
  induction es generalizing k with
  | nil => simp [signed, elementaryAt]
  | cons e es ih =>
    cases k with
    | zero => simp [signed, elementaryAt]
    | succ k =>
      have hneg : (((signed es).map (-·)).getD k 0).toZMod = -((signed es).getD k 0).toZMod := by
        by_cases hk : k < (signed es).length
        · rw [List.getD_eq_getElem _ _ (by simpa using hk), List.getD_eq_getElem _ _ hk]
          simp
        · rw [List.getD_eq_default _ _ (by simpa using hk), List.getD_eq_default _ _ (by omega)]
          simp
      rw [signed, List.getD_cons_succ, hneg, ih]
      simp only [elementaryAt, List.getD_cons_succ]
      ring

/-- The coefficients are the elementary symmetric functions with alternating signs. -/
theorem coeff_ofElementary (es : List (Residue m)) {k : ℕ} (hk : k ≤ es.length) :
    (Poly.ofElementary es).toPolynomial.coeff (es.length - k) =
      (-1) ^ k * elementaryAt es k := by
  rw [Poly.ofElementary, Poly.toPolynomial_ofCoeffs, coeff_coeffPolynomial]
  cases k with
  | zero =>
    rw [Nat.sub_zero, List.getD_append_right _ _ _ _ (by simp [length_signed])]
    simp [length_signed]
  | succ k =>
    have hlt : es.length - (k + 1) < (signed es).length := by rw [length_signed]; omega
    rw [List.getD_append _ _ _ _ (by rw [List.length_reverse]; exact hlt),
      List.getD_reverse _ hlt, ← getD_signed, length_signed]
    congr 2
    omega

theorem coeff_length_ofElementary (es : List (Residue m)) :
    (Poly.ofElementary es).toPolynomial.coeff es.length = 1 := by
  have hcoeff := coeff_ofElementary es es.length.zero_le
  rwa [Nat.sub_zero, pow_zero, one_mul, elementaryAt_zero] at hcoeff

theorem natDegree_ofElementary (es : List (Residue m)) :
    (Poly.ofElementary es).toPolynomial.natDegree = es.length := by
  refine natDegree_eq_of_le_of_coeff_ne_zero ?_ ?_
  · rw [Poly.ofElementary, Poly.toPolynomial_ofCoeffs]
    refine natDegree_le_of_degree_le ?_
    have hlt := degree_coeffPolynomial_lt ((signed es).reverse ++ [1])
    rw [List.length_append, List.length_reverse, length_signed, List.length_singleton] at hlt
    exact Order.le_of_lt_succ hlt
  · rw [coeff_length_ofElementary]
    exact one_ne_zero

theorem monic_ofElementary (es : List (Residue m)) : (Poly.ofElementary es).toPolynomial.Monic := by
  rw [Monic, leadingCoeff, natDegree_ofElementary, coeff_length_ofElementary]

/-- Vieta's formulas: the polynomial has the elements of a multiset for its roots exactly if the
elementary symmetric functions are theirs. -/
theorem toPolynomial_ofElementary_eq_prod_iff {es : List (Residue m)}
    {M : Multiset (ZMod m.value)} (hM : M.card = es.length) :
    (Poly.ofElementary es).toPolynomial = (M.map fun x => X - C x).prod ↔
      ∀ k ≤ es.length, elementaryAt es k = M.esymm k := by
  have hcoeff : ∀ k ≤ es.length,
      (M.map fun x => X - C x).prod.coeff (es.length - k) = (-1) ^ k * M.esymm k := by
    intro k hk
    rw [Multiset.prod_X_sub_C_coeff M (by omega), hM]
    congr 2 <;> omega
  have hsign : ∀ k, IsUnit ((-1 : ZMod m.value) ^ k) := fun k => isUnit_one.neg.pow k
  constructor
  · intro h k hk
    apply (hsign k).mul_left_cancel
    rw [← coeff_ofElementary es hk, h, hcoeff k hk]
  · intro h
    ext j
    rcases Nat.lt_or_ge es.length j with hj | hj
    · have hprod : (M.map fun x => X - C x).prod.natDegree < j := by
        rw [natDegree_multiset_prod_X_sub_C_eq_card, hM]
        exact hj
      rw [coeff_eq_zero_of_natDegree_lt (by rw [natDegree_ofElementary]; exact hj),
        coeff_eq_zero_of_natDegree_lt hprod]
    · have hsub : j = es.length - (es.length - j) := by omega
      rw [hsub, coeff_ofElementary es (by omega), hcoeff _ (by omega), h _ (by omega)]

/-- The elements of a multiset are the roots of the polynomial exactly if they have the power sums
that it was computed from. -/
theorem toPolynomial_ofElementary_eq_prod_iff_sums {sums es : List (Residue m)}
    (h : elementarySymmetric sums = .ok es) {M : Multiset (ZMod m.value)}
    (hM : M.card = sums.length) :
    (Poly.ofElementary es).toPolynomial = (M.map fun x => X - C x).prod ↔
      ∀ k < sums.length, (M.map (· ^ (k + 1))).sum = powerSumAt sums (k + 1) := by
  have hlen := length_elementarySymmetric h
  have hcomputed := newtonIdentities_of_elementarySymmetric h
  have hmultiset := NewtonIdentities.of_multiset M sums.length
  rw [toPolynomial_ofElementary_eq_prod_iff (hM.trans hlen.symm), hlen]
  constructor
  · intro he
    exact hmultiset.sums_unique (hcomputed.congr (fun _ _ _ => rfl) fun k hk => (he k hk).symm)
  · intro hs
    refine NewtonIdentities.elementary_unique (isUnit_of_elementarySymmetric h) hcomputed
      (hmultiset.congr (fun k hk hkn => ?_) fun _ _ => rfl)
    obtain ⟨j, rfl⟩ := Nat.exists_eq_add_of_le' hk
    exact (hs j (by omega)).symm

/-! ## Power sums -/

theorem toZMod_foldr_add (xs : List (Residue m)) :
    (xs.foldr (· + ·) 0).toZMod = (xs.map Residue.toZMod).sum := by
  induction xs with
  | nil => simp
  | cons x xs ih => rw [List.foldr_cons, Residue.toZMod_add, ih, List.map_cons, List.sum_cons]

/-- The powers that the sums are taken of go up by one from sum to sum. -/
theorem powerSumsFrom_eq (xs : List (Residue m)) (j count : ℕ) :
    powerSumsFrom xs (xs.map fun x => .ofZMod (x.toZMod ^ (j + 1))) count =
      (List.range count).map fun k => .ofZMod (xs.map fun x => x.toZMod ^ (j + k + 1)).sum := by
  induction count generalizing j with
  | zero => rfl
  | succ count ih =>
    have hsum : (xs.map fun x => Residue.ofZMod (x.toZMod ^ (j + 1))).foldr (· + ·) 0 =
        .ofZMod (xs.map fun x => x.toZMod ^ (j + 1)).sum := by
      apply Residue.toZMod_injective
      rw [toZMod_foldr_add, List.map_map, Residue.toZMod_ofZMod]
      simp [Function.comp_def]
    have hnext : List.zipWith (· * ·) (xs.map fun x => Residue.ofZMod (x.toZMod ^ (j + 1))) xs =
        xs.map fun x => .ofZMod (x.toZMod ^ (j + 1 + 1)) := by
      rw [List.zipWith_map_left, List.zipWith_self]
      refine List.map_congr_left fun x _ => Residue.toZMod_injective ?_
      rw [Residue.toZMod_mul, Residue.toZMod_ofZMod, Residue.toZMod_ofZMod, pow_succ _ (j + 1)]
    rw [powerSumsFrom, hsum, hnext, ih, List.range_succ_eq_map, List.map_cons, List.map_map]
    congr 1
    refine List.map_congr_left fun k _ => ?_
    rw [Function.comp_apply, Nat.succ_eq_add_one, Nat.add_right_comm j 1 k, ← Nat.add_assoc]

theorem powerSums_eq (xs : List (Residue m)) (count : ℕ) :
    powerSums xs count =
      (List.range count).map fun k => .ofZMod (xs.map fun x => x.toZMod ^ (k + 1)).sum := by
  have hxs : xs = xs.map fun x => Residue.ofZMod (x.toZMod ^ (0 + 1)) := by simp
  have heq := powerSumsFrom_eq xs 0 count
  rw [← hxs] at heq
  rw [powerSums, heq]
  refine List.map_congr_left fun k _ => ?_
  rw [Nat.zero_add]

@[simp]
theorem length_powerSums (xs : List (Residue m)) (count : ℕ) :
    (powerSums xs count).length = count := by simp [powerSums_eq]

theorem powerSumAt_powerSums (xs : List (Residue m)) {count k : ℕ} (hk : k < count) :
    powerSumAt (powerSums xs count) (k + 1) = (xs.map fun x => x.toZMod ^ (k + 1)).sum := by
  rw [powerSumAt_succ (by rwa [length_powerSums])]
  simp [powerSums_eq]

/-! ## From elements to power sums and back -/

/-- The power sums of residues lead back to the elementary symmetric functions of the residues. -/
theorem elementaryAt_of_powerSums {xs es : List (Residue m)} {count : ℕ}
    (h : elementarySymmetric (powerSums xs count) = .ok es) :
    ∀ k ≤ count, elementaryAt es k = (Multiset.ofList (xs.map Residue.toZMod)).esymm k := by
  have hunit := isUnit_of_elementarySymmetric h
  have hcomputed := newtonIdentities_of_elementarySymmetric h
  rw [length_powerSums] at hunit hcomputed
  refine NewtonIdentities.elementary_unique hunit hcomputed
    ((NewtonIdentities.of_multiset _ count).congr (fun k hk hkn => ?_) fun _ _ => rfl)
  obtain ⟨j, rfl⟩ := Nat.exists_eq_add_of_le' hk
  rw [powerSumAt_powerSums xs (by omega)]
  simp [Function.comp_def]

/-- As many power sums as there are residues lead back to the polynomial of the residues. -/
theorem ofElementary_eq_ofRoots {xs es : List (Residue m)}
    (h : elementarySymmetric (powerSums xs xs.length) = .ok es) :
    Poly.ofElementary es = Poly.ofRoots xs := by
  have hlen : es.length = xs.length := by rw [length_elementarySymmetric h, length_powerSums]
  have hcard : (Multiset.ofList (xs.map Residue.toZMod)).card = es.length := by simp [hlen]
  have hprod := (toPolynomial_ofElementary_eq_prod_iff hcard).mpr
    fun k hk => elementaryAt_of_powerSums h k (hlen ▸ hk)
  apply Poly.toPolynomial_injective
  rw [hprod, Poly.toPolynomial_ofRoots, Multiset.map_coe, Multiset.prod_coe, List.map_map]
  rfl

theorem esymm_map_intCast (M : Multiset ℤ) (k : ℕ) :
    (M.map (Int.cast : ℤ → ZMod m.value)).esymm k = (M.esymm k : ZMod m.value) := by
  rw [Multiset.esymm, Multiset.esymm, Multiset.powersetCard_map, Multiset.map_map,
    Int.cast_multiset_sum, Multiset.map_map]
  simp [Int.cast_multiset_prod]

/-- The power sums of integers. -/
theorem powerSums_ofInt (vs : List ℤ) (count : ℕ) :
    powerSums (vs.map (Residue.ofInt m)) count =
      (List.range count).map fun k => Residue.ofInt m (vs.map (· ^ (k + 1))).sum := by
  rw [powerSums_eq]
  refine List.map_congr_left fun k _ => Residue.toZMod_injective ?_
  simp [Function.comp_def, Int.cast_list_sum]

/-- The power sums of integers lead back to the elementary symmetric functions of the integers. -/
theorem eq_of_elementarySymmetric_ofInt {vs : List ℤ} {count : ℕ} {es : List (Residue m)}
    (h : elementarySymmetric (powerSums (vs.map (Residue.ofInt m)) count) = .ok es) :
    es = (List.range count).map fun k =>
      Residue.ofInt m ((vs : Multiset ℤ).esymm (k + 1)) := by
  have hlen : es.length = count := by rw [length_elementarySymmetric h, length_powerSums]
  apply List.ext_getElem (by simp [hlen])
  intro k hk _
  have hat := elementaryAt_of_powerSums h (k + 1) (by omega)
  rw [elementaryAt_succ hk] at hat
  apply Residue.toZMod_injective
  rw [hat, List.getElem_map, Residue.toZMod_ofInt, List.getElem_range, ← esymm_map_intCast,
    Multiset.map_coe, List.map_map]
  simp [Function.comp_def]

/-- Over any modulus for which `1` to `count` are units, the first power sums of integers lead back
to as many elementary symmetric functions, which are zero beyond the number of the integers. With as
many of them as integers, they lead back to the polynomial that has the integers for its roots. -/
theorem elementarySymmetric_powerSums (m : Modulus) (vs : List ℤ) (count : ℕ)
    (hcount : ∀ k, 1 ≤ k → k ≤ count → Nat.Coprime k m.value) :
    powerSums (vs.map (Residue.ofInt m)) count =
      (List.range count).map (fun k => Residue.ofInt m (vs.map (· ^ (k + 1))).sum) ∧
    ∃ es, elementarySymmetric (powerSums (vs.map (Residue.ofInt m)) count) = .ok es ∧
      es = (List.range count).map
        (fun k => Residue.ofInt m ((vs : Multiset ℤ).esymm (k + 1))) ∧
      (∀ k, vs.length ≤ k → es.getD k 0 = 0) ∧
      (count = vs.length → Poly.ofElementary es = Poly.ofRoots (vs.map (Residue.ofInt m))) := by
  refine ⟨powerSums_ofInt vs count, ?_⟩
  have hunit : ∀ k < (powerSums (vs.map (Residue.ofInt m)) count).length,
      IsUnit ((k + 1 : ℕ) : ZMod m.value) := by
    intro k hk
    rw [length_powerSums] at hk
    exact (ZMod.isUnit_iff_coprime (k + 1) m.value).mpr (hcount (k + 1) (by omega) hk)
  obtain ⟨es, hes⟩ := exists_elementarySymmetric hunit
  have heq := eq_of_elementarySymmetric_ofInt hes
  refine ⟨es, hes, heq, fun k hk => ?_, fun hlen => ?_⟩
  · have hzero : (vs : Multiset ℤ).esymm (k + 1) = 0 := by
      rw [Multiset.esymm, Multiset.powersetCard_eq_empty _ (by simpa using Nat.lt_succ_of_le hk)]
      simp
    rcases Nat.lt_or_ge k es.length with hk' | hk'
    · rw [List.getD_eq_getElem _ _ hk']
      simp only [heq, List.getElem_map, List.getElem_range, hzero]
      exact Residue.toZMod_injective (by simp)
    · rw [List.getD_eq_default _ _ hk']
  · apply ofElementary_eq_ofRoots
    rwa [List.length_map, ← hlen]

/-- Modulo 35 the numbers `1` to `4` are units. -/
theorem elementarySymmetric_powerSums_thirtyFive :
    (∀ k, 1 ≤ k → k ≤ 4 → Nat.Coprime k 35) ∧
      elementarySymmetric (powerSums ([-1, 40, 2, 2].map (Residue.ofInt ⟨35, by decide⟩)) 4) =
        .ok ([8, 15, 31, 15].map (Residue.ofInt ⟨35, by decide⟩)) := by
  have hunits : ∀ k, 1 ≤ k → k ≤ 4 → Nat.Coprime k 35 := by decide
  obtain ⟨_, es, hes, heq, _⟩ :=
    elementarySymmetric_powerSums ⟨35, by decide⟩ [-1, 40, 2, 2] 4 hunits
  refine ⟨hunits, ?_⟩
  rw [hes, heq]
  decide +kernel

end MultisetRecovery

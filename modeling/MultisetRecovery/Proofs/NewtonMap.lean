import Mathlib.Data.List.Forall2
import MultisetRecovery.Proofs.SymmetricFunction

/-!
# The map of Newton's identities

From `n` power sums to `n` elementary symmetric functions, over any modulus for which `1` to `n` are
units. The functions that are computed are the only ones that satisfy the identities, for any sums,
not just for those of a multiset (`elementarySymmetric_eq_ok_iff_identities`). In the other
direction, each identity can be solved for its last power sum, whose coefficient is a sign, so all
functions are computed from some sums, and from no others. Sums may be given as integers; the
functions depend on their residues alone.
-/

open Polynomial

namespace MultisetRecovery

variable {m : Modulus}

/-! ## Sums that are not reduced -/

theorem ofInt_alternatingSumOfInts (ps : List ℤ) (es : List (Residue m)) :
    Residue.ofInt m (alternatingSumOfInts ps es) =
      alternatingSum (ps.map (Residue.ofInt m)) es := by
  fun_induction alternatingSumOfInts ps es with
  | case1 p ps e es ih =>
    have he : ((e.val : ℤ) : ZMod m.value) = e.toZMod := Int.cast_natCast e.val
    rw [List.map_cons, alternatingSum, ← ih]
    apply Residue.toZMod_injective
    rw [Residue.toZMod_ofInt, Int.cast_sub, Int.cast_mul, he, Residue.toZMod_sub,
      Residue.toZMod_mul, Residue.toZMod_ofInt, Residue.toZMod_ofInt]
  | case2 ps es h =>
    cases ps with
    | nil => simp [alternatingSum]
    | cons p ps =>
      cases es with
      | nil => simp [alternatingSum]
      | cons e es => exact absurd rfl (h p ps e es rfl)

theorem elementaryFromOfInts_eq (sums : List ℤ) (inverses known : List (Residue m)) :
    elementaryFromOfInts sums inverses known =
      elementaryFrom (sums.map (Residue.ofInt m)) inverses known := by
  induction inverses generalizing known with
  | nil => rfl
  | cons i inverses ih =>
    rw [elementaryFromOfInts, elementaryFrom, ih, ofInt_alternatingSumOfInts]

/-- It makes no difference when the sums are reduced. -/
theorem elementarySymmetricOfInts_eq (m : Modulus) (sums : List ℤ) :
    elementarySymmetricOfInts m sums = elementarySymmetric (sums.map (Residue.ofInt m)) := by
  rw [elementarySymmetricOfInts, elementarySymmetric, List.length_map]
  cases Residue.invertAll (firstNumbers m sums.length) with
  | error e => rfl
  | ok inverses => exact congrArg Except.ok (elementaryFromOfInts_eq sums inverses [1])

theorem map_ofInt_eq_iff {vs vs' : List ℤ} :
    vs.map (Residue.ofInt m) = vs'.map (Residue.ofInt m) ↔
      List.Forall₂ (· ≡ · [ZMOD m.value]) vs vs' := by
  rw [← List.forall₂_eq_eq_eq, List.forall₂_map_left_iff, List.forall₂_map_right_iff]
  simp only [Residue.ofInt_eq_ofInt_iff]

/-- The power sum of exponent `k` in a list of integers that begins with the first. -/
def sumAt (m : Modulus) (sums : List ℤ) (k : ℕ) : ZMod m.value := (sums.getD (k - 1) 0 : ℤ)

theorem powerSumAt_map_ofInt (sums : List ℤ) :
    powerSumAt (sums.map (Residue.ofInt m)) = sumAt m sums := by
  funext k
  rw [powerSumAt, sumAt, ← Residue.ofInt_zero, List.getD_map, Residue.toZMod_ofInt]

/-! ## The identities determine the functions -/

theorem eq_of_elementaryAt {es es' : List (Residue m)} (hlen : es.length = es'.length)
    (h : ∀ k ≤ es.length, elementaryAt es k = elementaryAt es' k) : es = es' := by
  apply List.ext_getElem hlen
  intro k hk hk'
  have hat := h (k + 1) hk
  rw [elementaryAt_succ hk, elementaryAt_succ hk'] at hat
  exact Residue.toZMod_injective hat

theorem elementarySymmetric_eq_ok_iff_identities (sums es : List (Residue m))
    (hunit : ∀ k < sums.length, IsUnit ((k + 1 : ℕ) : ZMod m.value)) :
    elementarySymmetric sums = .ok es ↔ es.length = sums.length ∧
      NewtonIdentities (powerSumAt sums) (elementaryAt es) sums.length := by
  constructor
  · intro h
    exact ⟨length_elementarySymmetric h, newtonIdentities_of_elementarySymmetric h⟩
  · rintro ⟨hlen, hidentities⟩
    obtain ⟨es', hes'⟩ := exists_elementarySymmetric hunit
    have hcomputed := newtonIdentities_of_elementarySymmetric hes'
    have hlen' := length_elementarySymmetric hes'
    have heq : es = es' := by
      refine eq_of_elementaryAt (hlen.trans hlen'.symm) fun k hk => ?_
      exact NewtonIdentities.elementary_unique hunit hidentities hcomputed k (hlen ▸ hk)
    rw [hes', heq]

/-- Any sums have elementary symmetric functions, and no others satisfy the identities with them. -/
theorem exists_elementary_of_sums {sums : List ℤ}
    (hunit : ∀ k < sums.length, IsUnit ((k + 1 : ℕ) : ZMod m.value)) :
    ∃ es, elementarySymmetricOfInts m sums = .ok es ∧ es.length = sums.length ∧
      NewtonIdentities (sumAt m sums) (elementaryAt es) sums.length ∧
      ∀ es' : List (Residue m), es'.length = sums.length →
        NewtonIdentities (sumAt m sums) (elementaryAt es') sums.length → es' = es := by
  have hlen : (sums.map (Residue.ofInt m)).length = sums.length := List.length_map _
  obtain ⟨es, hes⟩ := exists_elementarySymmetric (hlen ▸ hunit)
  have hiff := fun es' => elementarySymmetric_eq_ok_iff_identities _ es' (hlen ▸ hunit)
  rw [hlen, powerSumAt_map_ofInt] at hiff
  obtain ⟨heslen, hidentities⟩ := (hiff es).mp hes
  rw [elementarySymmetricOfInts_eq]
  refine ⟨es, hes, heslen, hidentities, fun es' heslen' hidentities' => ?_⟩
  have hes' := (hiff es').mpr ⟨heslen', hidentities'⟩
  exact Except.ok.inj (hes'.symm.trans hes)

/-- The polynomial determines the functions that it is built from. -/
theorem eq_of_ofElementary_eq {es es' : List (Residue m)} (hlen : es.length = es'.length)
    (h : Poly.ofElementary es = Poly.ofElementary es') : es = es' := by
  refine eq_of_elementaryAt hlen fun k hk => ?_
  have hsign : IsUnit ((-1 : ZMod m.value) ^ k) := isUnit_one.neg.pow k
  apply hsign.mul_left_cancel
  rw [← coeff_ofElementary es hk, ← coeff_ofElementary es' (hlen ▸ hk), h, hlen]

/-! ## The functions determine the sums -/

/-- Whatever the elementary symmetric functions, there are power sums that satisfy the identities
with them. -/
theorem NewtonIdentities.exists_sums {R : Type*} [CommRing R] {e : ℕ → R} (he : e 0 = 1) (n : ℕ) :
    ∃ s, NewtonIdentities s e n := by
  induction n with
  | zero => exact ⟨0, he, fun k hk => absurd hk (Nat.not_lt_zero k)⟩
  | succ n ih =>
    obtain ⟨s, hs⟩ := ih
    -- In the last identity the new sum has the coefficient `(-1) ^ n`.
    set last := (-1) ^ n * (((n + 1 : ℕ) : R) * e (n + 1) -
      ∑ i ∈ Finset.range n, (-1) ^ i * s (i + 1) * e (n - i)) with hlast
    have hold : ∀ i < n, Function.update s (n + 1) last (i + 1) = s (i + 1) := by
      intro i hi
      exact Function.update_of_ne (by omega) _ _
    refine ⟨Function.update s (n + 1) last, he, fun k hk => ?_⟩
    rcases Nat.lt_succ_iff_lt_or_eq.mp hk with hlt | rfl
    · rw [hs.succ k hlt]
      refine Finset.sum_congr rfl fun i hi => ?_
      have hik := Finset.mem_range.mp hi
      rw [hold i (by omega)]
    · have hfront : ∑ i ∈ Finset.range k,
          (-1) ^ i * Function.update s (k + 1) last (i + 1) * e (k - i) =
            ∑ i ∈ Finset.range k, (-1) ^ i * s (i + 1) * e (k - i) := by
        refine Finset.sum_congr rfl fun i hi => ?_
        rw [hold i (Finset.mem_range.mp hi)]
      have hsign : (-1 : R) ^ k * (-1) ^ k = 1 := by
        rw [← mul_pow, neg_one_mul, neg_neg, one_pow]
      rw [Finset.sum_range_succ, hfront, Function.update_self, Nat.sub_self, he, hlast]
      linear_combination -(((k + 1 : ℕ) : R) * e (k + 1) -
        ∑ i ∈ Finset.range k, (-1) ^ i * s (i + 1) * e (k - i)) * hsign

theorem eq_of_elementarySymmetric_eq {sums sums' es : List (Residue m)}
    (h : elementarySymmetric sums = .ok es) (h' : elementarySymmetric sums' = .ok es) :
    sums = sums' := by
  have hlen : sums.length = sums'.length :=
    (length_elementarySymmetric h).symm.trans (length_elementarySymmetric h')
  have hidentities := newtonIdentities_of_elementarySymmetric h
  have hidentities' := newtonIdentities_of_elementarySymmetric h'
  rw [← hlen] at hidentities'
  apply List.ext_getElem hlen
  intro k hk hk'
  have hat := hidentities.sums_unique hidentities' k hk
  rw [powerSumAt_succ hk, powerSumAt_succ hk'] at hat
  exact Residue.toZMod_injective hat

theorem exists_sums_of_elementary {es : List (Residue m)}
    (hunit : ∀ k < es.length, IsUnit ((k + 1 : ℕ) : ZMod m.value)) :
    ∃ sums : List (Residue m), elementarySymmetric sums = .ok es := by
  obtain ⟨s, hs⟩ := NewtonIdentities.exists_sums (elementaryAt_zero es) es.length
  set sums := (List.range es.length).map fun k => Residue.ofZMod (s (k + 1)) with hsums
  have hlen : sums.length = es.length := by simp [hsums]
  refine ⟨sums, ?_⟩
  rw [elementarySymmetric_eq_ok_iff_identities sums es (hlen ▸ hunit), hlen]
  refine ⟨rfl, hs.congr (fun k hk hkn => ?_) fun _ _ => rfl⟩
  obtain ⟨j, rfl⟩ := Nat.exists_eq_add_of_le' hk
  rw [powerSumAt_succ (by omega)]
  simp [hsums]

/-! ## Where the map is defined -/

theorem isUnit_iff_coprime_upto {n : ℕ} :
    (∀ k < n, IsUnit ((k + 1 : ℕ) : ZMod m.value)) ↔
      ∀ k, 1 ≤ k → k ≤ n → Nat.Coprime k m.value := by
  constructor
  · intro h k hk hkn
    obtain ⟨j, rfl⟩ := Nat.exists_eq_add_of_le' hk
    exact (ZMod.isUnit_iff_coprime (j + 1) m.value).mp (h j hkn)
  · intro h k hk
    exact (ZMod.isUnit_iff_coprime (k + 1) m.value).mpr (h (k + 1) (by omega) hk)

theorem coprime_upto_iff (hm : m.value.Prime) {n : ℕ} :
    (∀ k, 1 ≤ k → k ≤ n → Nat.Coprime k m.value) ↔ n < m.value := by
  constructor
  · intro h
    by_contra hle
    have hself := h m.value m.value_pos (by omega)
    rw [Nat.coprime_self] at hself
    exact hm.one_lt.ne' hself
  · intro h k hk hkn
    exact (Nat.coprime_of_lt_prime (by omega) (by omega) hm).symm

theorem exists_countNotInvertible_iff (sums : List (Residue m)) :
    (∃ cause, elementarySymmetric sums = .error (.countNotInvertible sums.length m cause)) ↔
      ∃ k, 1 ≤ k ∧ k ≤ sums.length ∧ ¬ Nat.Coprime k m.value := by
  have hunit : (∃ k, 1 ≤ k ∧ k ≤ sums.length ∧ ¬ Nat.Coprime k m.value) ↔
      ¬ ∀ k < sums.length, IsUnit ((k + 1 : ℕ) : ZMod m.value) := by
    rw [isUnit_iff_coprime_upto]
    push Not
    rfl
  rw [hunit]
  constructor
  · rintro ⟨cause, herror⟩ hall
    obtain ⟨es, hes⟩ := exists_elementarySymmetric hall
    cases herror.symm.trans hes
  · intro hnot
    cases hinv : Residue.invertAll (firstNumbers m sums.length) with
    | error cause => exact ⟨cause, by rw [elementarySymmetric, hinv]⟩
    | ok inverses =>
      have hok : elementarySymmetric sums = .ok (elementaryFrom sums inverses [1]) := by
        rw [elementarySymmetric, hinv]
      exact absurd (isUnit_of_elementarySymmetric hok) hnot

/-- Over any modulus, `n` power sums have elementary symmetric functions exactly if `1` to `n` are
coprime to it. Then there is one list of functions for any sums, which depends on their residues
only, and one list of residues for any functions, so different residues have different
polynomials. -/
theorem elementarySymmetricOfInts_bijective (m : Modulus) (n : ℕ) :
    (∀ sums : List ℤ, sums.length = n →
      ((∃ cause, elementarySymmetricOfInts m sums = .error (.countNotInvertible n m cause)) ↔
        ∃ k, 1 ≤ k ∧ k ≤ n ∧ ¬ Nat.Coprime k m.value)) ∧
    (m.value.Prime → ((∃ k, 1 ≤ k ∧ k ≤ n ∧ ¬ Nat.Coprime k m.value) ↔ m.value ≤ n)) ∧
    (∀ sums sums' : List ℤ, List.Forall₂ (· ≡ · [ZMOD m.value]) sums sums' →
      elementarySymmetricOfInts m sums = elementarySymmetricOfInts m sums') ∧
    ((∀ k, 1 ≤ k → k ≤ n → Nat.Coprime k m.value) →
      (∀ sums : List ℤ, sums.length = n →
        ∃ es, elementarySymmetricOfInts m sums = .ok es ∧ es.length = n ∧
          NewtonIdentities (sumAt m sums) (elementaryAt es) n ∧
          ∀ es' : List (Residue m), es'.length = n →
            NewtonIdentities (sumAt m sums) (elementaryAt es') n → es' = es) ∧
      (∀ es : List (Residue m), es.length = n → ∃! sums : List (Residue m),
        sums.length = n ∧ elementarySymmetricOfInts m (sums.map fun a => (a.val : ℤ)) = .ok es) ∧
      ∀ (sums sums' : List ℤ) (es es' : List (Residue m)),
        sums.length = n → elementarySymmetricOfInts m sums = .ok es →
        sums'.length = n → elementarySymmetricOfInts m sums' = .ok es' →
        Poly.ofElementary es = Poly.ofElementary es' →
          List.Forall₂ (· ≡ · [ZMOD m.value]) sums sums') := by
  refine ⟨fun sums hlen => ?_, fun hm => ?_, fun sums sums' hcongr => ?_, fun hcoprime => ?_⟩
  · have hresidues := exists_countNotInvertible_iff (sums.map (Residue.ofInt m))
    rw [List.length_map, hlen] at hresidues
    rw [elementarySymmetricOfInts_eq, hresidues]
  · rw [← not_lt, ← coprime_upto_iff hm]
    push Not
    rfl
  · rw [elementarySymmetricOfInts_eq, elementarySymmetricOfInts_eq, map_ofInt_eq_iff.mpr hcongr]
  have hunit := isUnit_iff_coprime_upto.mpr hcoprime
  refine ⟨fun sums hlen => ?_, fun es hlen => ?_, ?_⟩
  · subst hlen
    exact exists_elementary_of_sums hunit
  · obtain ⟨sums, hsums⟩ := exists_sums_of_elementary (hlen ▸ hunit)
    refine ⟨sums, ⟨?_, ?_⟩, ?_⟩
    · rw [← length_elementarySymmetric hsums, hlen]
    · rw [elementarySymmetricOfInts_eq, Residue.map_ofInt_val, hsums]
    · rintro sums' ⟨-, hsums'⟩
      rw [elementarySymmetricOfInts_eq, Residue.map_ofInt_val] at hsums'
      exact eq_of_elementarySymmetric_eq hsums' hsums
  · intro sums sums' es es' hlen hes hlen' hes' hpoly
    rw [elementarySymmetricOfInts_eq] at hes hes'
    have heslen : es.length = es'.length := by
      rw [length_elementarySymmetric hes, length_elementarySymmetric hes', List.length_map,
        List.length_map, hlen, hlen']
    rw [← eq_of_ofElementary_eq heslen hpoly] at hes'
    exact map_ofInt_eq_iff.mp (eq_of_elementarySymmetric_eq hes hes')

/-- Modulo 35, four sums of which one only is a least representative. -/
theorem elementarySymmetricOfInts_bijective_thirtyFive :
    let m : Modulus := ⟨35, by decide⟩
    let es := [34, 33, 3, 30].map (Residue.ofInt m)
    (∀ k, 1 ≤ k → k ≤ 4 → Nat.Coprime k 35) ∧
      elementarySymmetricOfInts m [-1, 40, 2, 200] = .ok es ∧
      ∃! sums : List (Residue m),
        sums.length = 4 ∧ elementarySymmetricOfInts m (sums.map fun a => (a.val : ℤ)) = .ok es := by
  intro m es
  have hunits : ∀ k, 1 ≤ k → k ≤ 4 → Nat.Coprime k 35 := by decide
  have hrun : elementarySymmetricOfInts m [-1, 40, 2, 200] = .ok es := by decide +kernel
  obtain ⟨-, -, -, hdefined⟩ := elementarySymmetricOfInts_bijective m 4
  obtain ⟨-, hsums, -⟩ := hdefined hunits
  exact ⟨hunits, hrun, hsums es rfl⟩

end MultisetRecovery

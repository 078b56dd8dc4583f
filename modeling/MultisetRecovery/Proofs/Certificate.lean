import Mathlib.Tactic.IntervalCases
import MultisetRecovery.Proofs.Extraction

/-!
# Reported roots are not trusted

A finder may report anything as roots: numbers that are none, the same root twice or under two
representatives, or too few of them. The multiplicities are counted by division and their number is
compared with the degree, so an extraction that returns has found a factorisation into linear
polynomials, over any modulus. Over a prime modulus a report of exactly the roots is all that it
takes: then the extraction returns whenever there is a factorisation.
-/

open Polynomial

namespace MultisetRecovery

variable {m : Modulus} {σ : Type} [Source σ]

/-! ## Any report -/

/-- A finder that was told its roots does no arithmetic that could be undefined. -/
theorem Finder.ensures_listed (reported : List ℤ) {f : Poly m} (hf : f.toPolynomial.Monic) :
    ((listed reported).rootsWithMultiplicity f : Search σ _).Ensures
      (fun roots => (roots.entries.map (·.1)).Nodup ∧ roots.product m ∣ f.toPolynomial)
      (fun e => ∃ cause, e = .internal cause) := by
  have hdvd : ((listed reported).countedRoots f : Search σ _).Ensures _ _ :=
    (listed reported).ensures_countedRoots_dvd hf
  have hfail : ((listed reported).countedRoots f : Search σ _).Ensures (fun _ => True)
      (fun e => ∃ cause, e = .internal cause) := by
    have hreport : ((listed reported).distinctRoots f : Search σ _).Ensures (fun _ => True)
        (fun e => ∃ cause, e = .internal cause) := Search.ensures_pure trivial
    refine ensures_countedRoots_of_monic (Poly.monic_eq_ok hf) hreport ?_ ?_
    · intro rs roots _ _
      trivial
    · intro rs e _ _
      exact ⟨e, rfl⟩
  exact (hdvd.and hfail).mono (fun _ => And.left) fun _ => And.right

theorem ensures_extractRoots_listed (es : List (Residue m)) (reported : List ℤ) :
    (extractRoots es (.listed reported) : Search σ _).Ensures
      (fun roots => (roots.entries.map (·.1)).Nodup ∧ roots.Fits m es.length ∧
        (Poly.ofElementary es).toPolynomial = roots.product m)
      (fun e => (∃ cause, e = .internal cause) ∨ ∃ cause, e = .noSolution cause) := by
  have hmonic := monic_ofElementary es
  have hfound : ((Finder.listed reported).rootsWithMultiplicity (Poly.ofElementary es) :
      Search σ _).Ensures _ _ := Finder.ensures_listed reported hmonic
  refine (ensures_extractRoots_of_found hfound).mono ?_ ?_
  · rintro roots ⟨⟨hnodup, hdvd⟩, hdefect⟩
    have hfits := RootMultiset.defect_eq_none_iff.mp hdefect
    exact ⟨hnodup, hfits, hfits.eq_product hmonic (natDegree_ofElementary es) hdvd⟩
  · rintro e (he | ⟨roots, -, hdefect⟩)
    · exact .inl he
    · rcases RootMultiset.defect_cases hdefect with ⟨r, k, rfl⟩ | rfl | rfl
      · exact .inl ⟨_, rfl⟩
      · exact .inl ⟨_, rfl⟩
      · exact .inr ⟨_, rfl⟩

/-! ## A report of exactly the roots -/

section Prime

variable [Fact m.value.Prime]

theorem Finder.ensures_listed_of_roots {reported : List ℤ} {f : Poly m}
    (hf : f.toPolynomial.Monic) (hnodup : reported.Nodup)
    (hroots : ∀ r, r ∈ reported ↔ m.IsCanonical r ∧ f.eval (Residue.ofInt m r) = 0) :
    ((listed reported).rootsWithMultiplicity f : Search σ _).Ensures (· = f.rootMultiset)
      (fun _ => False) := by
  refine ensures_countedRoots hf.ne_zero fun g hg => ?_
  cases hg.symm.trans (Poly.monic_eq_ok hf)
  have hperm : reported.Perm f.zeroInts := by
    rw [List.perm_ext_iff_of_nodup hnodup f.nodup_zeroInts]
    intro r
    rw [hroots, Poly.mem_zeroInts]
  exact Search.ensures_pure (Poly.mergeSort_eq_zeroInts hperm)

/-- The roots of a monic polynomial number as many as its degree exactly for a product of linear
polynomials. -/
theorem Poly.total_eq_natDegree_iff {f : Poly m} (hf : f.toPolynomial.Monic) :
    f.rootMultiset.total = f.toPolynomial.natDegree ↔ ∃ rs, f = Poly.ofRoots rs := by
  rw [← degree_eq hf.ne_zero, total_eq_degree_iff hf.ne_zero]
  constructor
  · rintro ⟨c, rs, hfactors⟩
    refine ⟨rs, toPolynomial_injective ?_⟩
    have hlead : c.toZMod = 1 := by
      have hcoeff := hf.leadingCoeff
      rw [hfactors, toPolynomial_scale, leadingCoeff_mul, leadingCoeff_C,
        (monic_ofRoots rs).leadingCoeff, mul_one] at hcoeff
      exact hcoeff
    rw [hfactors, toPolynomial_scale, hlead, C_1, one_mul]
  · rintro ⟨rs, rfl⟩
    refine ⟨1, rs, toPolynomial_injective ?_⟩
    rw [toPolynomial_scale, Residue.toZMod_one, C_1, one_mul]

theorem exists_extractRoots_listed_iff {es : List (Residue m)} {reported : List ℤ}
    (hnodup : reported.Nodup)
    (hroots : ∀ r, r ∈ reported ↔
      m.IsCanonical r ∧ (Poly.ofElementary es).eval (Residue.ofInt m r) = 0) (s : Session σ) :
    (∃ roots, ((extractRoots es (.listed reported)).run.run s).1 = .ok roots) ↔
      ∃ rs, Poly.ofElementary es = Poly.ofRoots rs := by
  have hmonic := monic_ofElementary es
  have hdegree := natDegree_ofElementary es
  have hfound : ((Finder.listed reported).rootsWithMultiplicity (Poly.ofElementary es) :
      Search σ _).Ensures _ _ := Finder.ensures_listed_of_roots hmonic hnodup hroots
  have hextract := ensures_extractRoots_of_found hfound
  rw [← Poly.total_eq_natDegree_iff hmonic, hdegree]
  have hdefect := Poly.defect_rootMultiset hmonic.ne_zero hdegree
  constructor
  · rintro ⟨roots, hok⟩
    obtain ⟨rfl, hnone⟩ := hextract.of_ok hok
    by_contra htotal
    rw [hdefect, if_neg htotal] at hnone
    cases hnone
  · intro htotal
    rw [if_pos htotal] at hdefect
    cases hresult : ((extractRoots es (.listed reported)).run.run s).1 with
    | ok roots => exact ⟨roots, rfl⟩
    | error e =>
      rcases hextract.of_error hresult with hfalse | ⟨roots, rfl, hsome⟩
      · exact hfalse.elim
      · rw [hdefect] at hsome
        cases hsome

end Prime

/-- What is extracted from any report is a factorisation of the polynomial, and what goes wrong is
never the arithmetic. A finder is asked for the roots of one polynomial only, so a list is all that
it can report. -/
theorem extractRoots_listed_certified (m : Modulus) (es : List (Residue m)) (reported : List ℤ)
    (s : Session σ) :
    let f := Poly.ofElementary es
    let result := ((extractRoots es (.listed reported)).run.run s).1
    (∀ e, result = .error e → (∃ cause, e = .internal cause) ∨ ∃ cause, e = .noSolution cause) ∧
    (∀ roots, result = .ok roots → (roots.entries.map (·.1)).Nodup ∧ roots.Fits m es.length ∧
      f.toPolynomial = roots.product m) ∧
    (m.value.Prime → reported.Nodup →
      (∀ r, r ∈ reported ↔ m.IsCanonical r ∧ f.eval (Residue.ofInt m r) = 0) →
      ((∃ roots, result = .ok roots) ↔ ∃ rs, f = Poly.ofRoots rs)) := by
  intro f result
  have hextract : (extractRoots es (.listed reported) : Search σ _).Ensures _ _ :=
    ensures_extractRoots_listed es reported
  refine ⟨fun e he => hextract.of_error he, fun roots hok => hextract.of_ok hok, ?_⟩
  intro hm hnodup hroots
  have : Fact m.value.Prime := ⟨hm⟩
  exact exists_extractRoots_listed_iff hnodup hroots s

/-- Modulo seven, `(x - 2) ^ 2 * (x - 5)` is put together from a report of its two roots. -/
theorem extractRoots_listed_certified_seven :
    let m : Modulus := ⟨7, by decide⟩
    let es := [9, 24, 20].map (Residue.ofInt m)
    Nat.Prime 7 ∧ [(5 : ℤ), 2].Nodup ∧
      (∀ r : ℤ, r ∈ [5, 2] ↔
        m.IsCanonical r ∧ (Poly.ofElementary es).eval (Residue.ofInt m r) = 0) ∧
      ∀ s : Session SplitMix, ∃ roots : RootMultiset,
        ((extractRoots es (.listed [5, 2])).run.run s).1 = .ok roots ∧ roots.Fits m 3 ∧
          (Poly.ofElementary es).toPolynomial = roots.product m := by
  intro m es
  have hprime : Nat.Prime 7 := by norm_num
  have hnodup : [(5 : ℤ), 2].Nodup := by decide
  have hroots : ∀ r : ℤ, r ∈ [5, 2] ↔
      m.IsCanonical r ∧ (Poly.ofElementary es).eval (Residue.ofInt m r) = 0 := by
    intro r
    constructor
    · intro hr
      have hr' : r = 5 ∨ r = 2 := by simpa using hr
      rcases hr' with rfl | rfl
      · decide
      · decide
    · rintro ⟨⟨hnonneg, hlt⟩, hzero⟩
      have hseven : r < 7 := hlt
      interval_cases r
      all_goals revert hzero; decide
  have hsplits : ∃ rs, Poly.ofElementary es = Poly.ofRoots rs :=
    ⟨[2, 2, 5].map (Residue.ofInt m), by decide⟩
  refine ⟨hprime, hnodup, hroots, fun s => ?_⟩
  obtain ⟨-, hcertified, hreturns⟩ := extractRoots_listed_certified m es [5, 2] s
  obtain ⟨roots, hok⟩ := (hreturns hprime hnodup hroots).mpr hsplits
  obtain ⟨-, hfits, hproduct⟩ := hcertified roots hok
  exact ⟨roots, hok, hfits, hproduct⟩

end MultisetRecovery

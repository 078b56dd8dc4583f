import MultisetRecovery.Proofs.Finder
import MultisetRecovery.Proofs.Solution
import MultisetRecovery.Proofs.SymmetricFunction

/-!
# What is extracted makes up the polynomial

The multiplicities that a search reports were counted by division. If they add up to the degree then
nothing is left to divide, over any modulus and whatever numbers were drawn. Over a prime modulus a
search that reports too few roots is right: there are no more.
-/

open Polynomial

namespace MultisetRecovery

variable {m : Modulus} {σ : Type}

/-- Roots that number as many as the degree leave nothing of a monic polynomial. -/
theorem RootMultiset.Fits.eq_product {n : ℕ} {s : RootMultiset} (h : s.Fits m n)
    {f : (ZMod m.value)[X]} (hf : f.Monic) (hdegree : f.natDegree = n) (hdvd : s.product m ∣ f) :
    f = s.product m := by
  have hnonneg : ∀ e ∈ s.entries, 0 ≤ e.2 := fun e he => (h.pos e he).trans' (by omega)
  have hcard := s.natDegree_product (m := m) hnonneg
  rw [h.total] at hcard
  exact eq_of_monic_of_dvd_of_natDegree_le s.monic_product hf hdvd (by omega)

theorem Poly.canonical_rootMultiset {f : Poly m} (hf : f.toPolynomial ≠ 0) :
    ∀ e ∈ f.rootMultiset.entries, m.IsCanonical e.1 ∧ 1 ≤ e.2 := by
  have hlists := listsRoots_rootMultiset hf
  intro e he
  obtain ⟨hcanonical, hroot⟩ := (hlists.mem_iff e.1).mp (List.mem_map_of_mem he)
  obtain ⟨k, hk, -, hnot⟩ := hlists.multiplicity e he
  rw [eval_eq_zero_iff, Residue.toZMod_ofInt, ← dvd_iff_isRoot] at hroot
  refine ⟨hcanonical, ?_⟩
  by_contra hlt
  have hzero : k = 0 := by omega
  rw [hzero, zero_add, pow_one] at hnot
  exact hnot hroot

theorem Poly.fits_rootMultiset {f : Poly m} (hf : f.toPolynomial ≠ 0) {n : ℕ}
    (htotal : f.rootMultiset.total = n) : f.rootMultiset.Fits m n :=
  ⟨fun e he => (canonical_rootMultiset hf e he).1, fun e he => (canonical_rootMultiset hf e he).2,
    htotal⟩

/-- Over a prime modulus no more than too few roots can be wrong with the roots of a polynomial. -/
theorem Poly.defect_rootMultiset [Fact m.value.Prime] {f : Poly m} (hf : f.toPolynomial ≠ 0) {n : ℕ}
    (hdegree : f.toPolynomial.natDegree = n) :
    f.rootMultiset.defect m n = if f.rootMultiset.total = n then none
      else some (.noSolution (.doesNotSplit f.rootMultiset.total n)) := by
  have hle : f.rootMultiset.total ≤ n := by
    rw [total_rootMultiset hf, ← hdegree]
    exact_mod_cast card_roots' f.toPolynomial
  rw [RootMultiset.defect_eq_of_canonical (canonical_rootMultiset hf), if_neg (not_lt.mpr hle)]
  by_cases htotal : f.rootMultiset.total = n
  · rw [if_pos htotal, if_neg (by omega)]
  · rw [if_neg htotal, if_pos (by omega)]

variable [Source σ] {finder : Finder}

/-- Whatever roots a finder reports, the linear factors of those that are counted divide the
polynomial. -/
theorem Finder.ensures_countedRoots_dvd (finder : Finder) {f : Poly m}
    (hf : f.toPolynomial.Monic) :
    (finder.countedRoots f : Search σ _).Ensures
      (fun roots => (roots.entries.map (·.1)).Nodup ∧ roots.product m ∣ f.toPolynomial)
      (fun _ => True) := by
  refine ensures_countedRoots_of_monic (Poly.monic_eq_ok hf) (Search.ensures_trivial _) ?_ ?_
  · intro rs roots _ hroots
    obtain ⟨rest, -, -, hprod, -⟩ := countRoots_spec hf.ne_zero hroots
    exact ⟨nodup_countRoots hroots, Dvd.intro _ hprod⟩
  · intro rs e _ _
    trivial

theorem Finder.rootsWithMultiplicity_eq (h : finder.Computes) (f : Poly m) :
    finder.rootsWithMultiplicity f = (finder.countedRoots f : Search σ _) := by
  cases finder with
  | tabulated roots => exact h.elim
  | _ => rfl

theorem Finder.ensures_dvd (h : finder.Computes) {f : Poly m} (hf : f.toPolynomial.Monic) :
    (finder.rootsWithMultiplicity f : Search σ _).Ensures
      (fun roots => roots.product m ∣ f.toPolynomial) (fun _ => True) := by
  rw [rootsWithMultiplicity_eq h]
  exact (finder.ensures_countedRoots_dvd hf).mono (fun _ => And.right) fun _ => id

/-- Over a prime modulus the roots are known exactly. -/
theorem Finder.ensures_rootsWithMultiplicity (h : finder.Computes) {f : Poly m}
    (hf : f.toPolynomial.Monic) :
    (finder.rootsWithMultiplicity f : Search σ _).Ensures
      (fun roots => roots.product m ∣ f.toPolynomial ∧
        (m.value.Prime → roots = f.rootMultiset))
      (fun e => m.value.Prime → ∃ cause, e = .internal cause) := by
  have hdvd : (finder.rootsWithMultiplicity f : Search σ _).Ensures _ _ := ensures_dvd h hf
  by_cases hm : m.value.Prime
  · have : Fact m.value.Prime := ⟨hm⟩
    refine (hdvd.and (ensures_computes h hf.ne_zero)).mono ?_ ?_
    · rintro roots ⟨hroots, hexact⟩
      exact ⟨hroots, fun _ => hexact⟩
    · rintro e ⟨-, he⟩ -
      exact he
  · refine hdvd.mono ?_ ?_
    · intro roots hroots
      exact ⟨hroots, fun hp => absurd hp hm⟩
    · intro e _ hp
      exact absurd hp hm

/-- An extraction returns what was found if that has no defect, and fails with the defect
otherwise. -/
theorem ensures_extractRoots_of_found {es : List (Residue m)} {Q : RootMultiset → Prop}
    {E : Failure → Prop}
    (h : (finder.rootsWithMultiplicity (Poly.ofElementary es) : Search σ _).Ensures Q E) :
    (extractRoots es finder : Search σ _).Ensures
      (fun roots => Q roots ∧ roots.defect m es.length = none)
      (fun e => E e ∨ ∃ roots, Q roots ∧ roots.defect m es.length = some e) := by
  refine (h.mono (fun _ => id) fun _ => .inl).bind fun roots hroots => ?_
  cases hdefect : roots.defect m es.length with
  | some e => exact Search.ensures_throw (.inr ⟨roots, hroots, hdefect⟩)
  | none => exact (Search.ensures_note _).bind fun _ _ => Search.ensures_pure ⟨hroots, hdefect⟩

/-- What is extracted makes up the polynomial. Over a prime modulus no extraction fails that need
not. -/
theorem ensures_extractRoots (h : finder.Computes) (es : List (Residue m)) :
    (extractRoots es finder : Search σ _).Ensures
      (fun roots => roots.Fits m es.length ∧
        (Poly.ofElementary es).toPolynomial = roots.product m)
      (fun e => m.value.Prime → (∃ cause, e = .internal cause) ∨
        ∀ M : Multiset (ZMod m.value),
          (Poly.ofElementary es).toPolynomial ≠ (M.map fun x => X - C x).prod) := by
  have hmonic := monic_ofElementary es
  have hdegree := natDegree_ofElementary es
  have hfound : (finder.rootsWithMultiplicity (Poly.ofElementary es) : Search σ _).Ensures _ _ :=
    Finder.ensures_rootsWithMultiplicity h hmonic
  refine (ensures_extractRoots_of_found hfound).mono ?_ ?_
  · rintro roots ⟨⟨hdvd, -⟩, hdefect⟩
    have hfits := RootMultiset.defect_eq_none_iff.mp hdefect
    exact ⟨hfits, hfits.eq_product hmonic hdegree hdvd⟩
  · rintro e (he | ⟨roots, ⟨-, hexact⟩, hdefect⟩) hp
    · exact .inl (he hp)
    · -- A product of as many linear factors has as many roots, so these would have no defect.
      refine .inr fun M hM => ?_
      have : Fact m.value.Prime := ⟨hp⟩
      have htotal : roots.total = es.length := by
        rw [hexact hp, Poly.total_rootMultiset hmonic.ne_zero, ← hdegree, hM,
          roots_multiset_prod_X_sub_C, natDegree_multiset_prod_X_sub_C_eq_card]
      have hfits := Poly.fits_rootMultiset hmonic.ne_zero (hexact hp ▸ htotal)
      rw [hexact hp, RootMultiset.defect_eq_none_iff.mpr hfits] at hdefect
      cases hdefect

end MultisetRecovery

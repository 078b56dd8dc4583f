import Mathlib.Data.Int.ModEq
import Mathlib.Tactic.NormNum.Prime
import MultisetRecovery.Proofs.Multiplicity

/-!
# Which reports of roots are counted

The multiplicities of reported roots are counted one root after the other, each in what the ones
before have left of the polynomial. Over a prime modulus that goes through exactly if the report is
of roots no two of which are congruent, and then no root takes anything from another, so the order
of the report does not matter. The report of anything else is refused at the first number that does
not belong there (`countRoots_exact`). Over any modulus what was counted is a factor.
-/

open Polynomial

namespace MultisetRecovery

variable {m : Modulus}

/-! ## Distinct roots -/

/-- The numbers are roots of `f`, no two of them congruent. -/
structure Poly.DistinctRoots (f : Poly m) (rs : List ℤ) : Prop where
  isRoot : ∀ r ∈ rs, f.eval (Residue.ofInt m r) = 0
  distinct : rs.Pairwise fun r r' => ¬ r ≡ r' [ZMOD m.value]

namespace Poly.DistinctRoots

variable {f : Poly m} {r : ℤ} {rs rs' : List ℤ}

theorem nil (f : Poly m) : f.DistinctRoots [] := ⟨by simp, .nil⟩

theorem perm (h : f.DistinctRoots rs) (hperm : rs'.Perm rs) : f.DistinctRoots rs' := by
  refine ⟨fun r hr => h.isRoot r (hperm.mem_iff.mp hr), ?_⟩
  exact h.distinct.perm hperm.symm fun hne heq => hne heq.symm

/-- A root and distinct roots of what is left after its division are distinct roots, over any
modulus. -/
theorem cons (hf : f.toPolynomial ≠ 0) (hr : f.eval (Residue.ofInt m r) = 0)
    (hrs : (divideOut (Residue.ofInt m r) f).2.DistinctRoots rs) : f.DistinctRoots (r :: rs) := by
  have hleft := not_isRoot_divideOut (Residue.ofInt m r) f hf
  constructor
  · intro r' hr'
    rcases List.mem_cons.mp hr' with rfl | hmem
    · exact hr
    · have hroot := eval_eq_zero_iff.mp (hrs.isRoot r' hmem)
      rw [eval_eq_zero_iff, divideOut_spec (Residue.ofInt m r) f, IsRoot.def, eval_mul, hroot,
        mul_zero]
  · refine List.pairwise_cons.mpr ⟨fun r' hmem hcongr => hleft ?_, hrs.distinct⟩
    have hroot := eval_eq_zero_iff.mp (hrs.isRoot r' hmem)
    rwa [← Residue.ofInt_eq_ofInt_iff.mpr hcongr] at hroot

end Poly.DistinctRoots

theorem countRootsFrom_cons {counted : RootMultiset} {f : Poly m} {r : ℤ} {rs : List ℤ} :
    countRootsFrom counted f (r :: rs) =
      if (divideOut (Residue.ofInt m r) f).1 = 0 then .error (.notARoot r)
      else countRootsFrom (counted.insert r (divideOut (Residue.ofInt m r) f).1)
        (divideOut (Residue.ofInt m r) f).2 rs := by
  rw [countRootsFrom]
  rcases divideOut (Residue.ofInt m r) f with ⟨k, left⟩
  cases k with
  | zero => rfl
  | succ k => rfl

theorem eval_eq_zero_of_divideOut {f : Poly m} {r : ℤ}
    (h : (divideOut (Residue.ofInt m r) f).1 ≠ 0) : f.eval (Residue.ofInt m r) = 0 := by
  obtain ⟨k, hk⟩ := Nat.exists_eq_succ_of_ne_zero h
  rw [Poly.eval_eq_zero_iff, Residue.toZMod_ofInt]
  exact isRoot_of_divideOut_fst hk

/-- Nothing else than distinct roots is counted, over any modulus. -/
theorem distinctRoots_of_countRootsFrom {counted roots : RootMultiset} {f : Poly m} {rs : List ℤ}
    (hf : f.toPolynomial ≠ 0) (h : countRootsFrom counted f rs = .ok roots) :
    f.DistinctRoots rs := by
  induction rs generalizing counted f with
  | nil => exact .nil f
  | cons r rs ih =>
    rw [countRootsFrom_cons] at h
    split at h
    · cases h
    · rename_i hdiv
      exact .cons hf (eval_eq_zero_of_divideOut hdiv) (ih (divideOut_ne_zero hf) h)

theorem pos_of_mem_setEntry {r k : ℤ} (hk : 1 ≤ k) {es : List (ℤ × ℤ)} (h : ∀ e ∈ es, 1 ≤ e.2) :
    ∀ e ∈ RootMultiset.setEntry r k es, 1 ≤ e.2 := by
  induction es with
  | nil => simpa [RootMultiset.setEntry] using hk
  | cons e es ih =>
    obtain ⟨he, hes⟩ := List.forall_mem_cons.mp h
    rw [RootMultiset.setEntry]
    split
    · exact List.forall_mem_cons.mpr ⟨hk, hes⟩
    · exact List.forall_mem_cons.mpr ⟨he, ih hes⟩

theorem pos_of_countRootsFrom {counted roots : RootMultiset} {f : Poly m} {rs : List ℤ}
    (hcounted : ∀ e ∈ counted.entries, 1 ≤ e.2) (h : countRootsFrom counted f rs = .ok roots) :
    ∀ e ∈ roots.entries, 1 ≤ e.2 := by
  induction rs generalizing counted f with
  | nil =>
    cases h
    exact hcounted
  | cons r rs ih =>
    rw [countRootsFrom_cons] at h
    split at h
    · cases h
    · exact ih (pos_of_mem_setEntry (by omega) hcounted) h

/-- What was counted is a factor, so it numbers no more than the degree. -/
theorem total_le_degree_of_countRoots {roots : RootMultiset} {f : Poly m} {rs : List ℤ}
    (hf : f.toPolynomial ≠ 0) (h : countRoots f rs = .ok roots) : roots.total ≤ f.degree := by
  obtain ⟨rest, hne, -, hprod, -⟩ := countRoots_spec hf h
  have hpos : ∀ e ∈ roots.entries, 1 ≤ e.2 := pos_of_countRootsFrom (by simp [RootMultiset.empty]) h
  have hdegree := roots.natDegree_product (m := m) fun e he => (hpos e he).trans' (by omega)
  have hmul := roots.monic_product.natDegree_mul' hne
  rw [Poly.degree_eq hf, ← hprod, hmul, ← hdegree]
  omega

/-! ## Prime moduli -/

section Prime

variable [Fact m.value.Prime] {f : Poly m} {r : ℤ} {rs : List ℤ}

/-- The division of one root leaves the others. -/
theorem Poly.DistinctRoots.tail (hf : f.toPolynomial ≠ 0) (h : f.DistinctRoots (r :: rs)) :
    (divideOut (Residue.ofInt m r) f).2.DistinctRoots rs := by
  obtain ⟨hne, hdistinct⟩ := List.pairwise_cons.mp h.distinct
  refine ⟨fun r' hr' => ?_, hdistinct⟩
  have hroot := Poly.eval_eq_zero_iff.mp (h.isRoot r' (List.mem_cons_of_mem r hr'))
  have hother : (Residue.ofInt m r').toZMod ≠ (Residue.ofInt m r).toZMod := by
    rw [Ne, Residue.toZMod_inj, Residue.ofInt_eq_ofInt_iff]
    exact fun heq => hne r' hr' heq.symm
  rw [Poly.eval_eq_zero_iff, ← rootMultiplicity_pos (divideOut_ne_zero hf),
    rootMultiplicity_divideOut hf hother, rootMultiplicity_pos hf]
  exact hroot

theorem Poly.DistinctRoots.countRoots_eq (hf : f.toPolynomial ≠ 0) (h : f.DistinctRoots rs) :
    countRoots f rs = .ok ⟨rs.map f.rootEntry⟩ := by
  refine countRoots_of_roots hf (fun r hr => ?_) ?_
  · have hroot := Poly.eval_eq_zero_iff.mp (h.isRoot r hr)
    rwa [Residue.toZMod_ofInt] at hroot
  · rw [List.Nodup, List.pairwise_map]
    refine h.distinct.imp fun hne heq => hne ?_
    exact (ZMod.intCast_eq_intCast_iff _ _ m.value).mp heq

/-- A report is refused at the first number that makes it one of other than distinct roots. -/
theorem exists_first_of_countRootsFrom {counted : RootMultiset} {e : InternalError}
    (hf : f.toPolynomial ≠ 0) (h : countRootsFrom counted f rs = .error e) :
    ∃ before r after, rs = before ++ r :: after ∧ f.DistinctRoots before ∧
      ¬ f.DistinctRoots (before ++ [r]) ∧ e = .notARoot r := by
  induction rs generalizing counted f with
  | nil => cases h
  | cons r rs ih =>
    rw [countRootsFrom_cons] at h
    split at h
    · rename_i hzero
      refine ⟨[], r, rs, rfl, .nil f, fun hr => ?_, ?_⟩
      · have hroot := Poly.eval_eq_zero_iff.mp (hr.isRoot r List.mem_cons_self)
        rw [divideOut_fst hf] at hzero
        exact absurd hzero ((rootMultiplicity_pos hf).mpr hroot).ne'
      · cases h
        rfl
    · rename_i hdiv
      obtain ⟨before, r', after, hrs, hbefore, hnot, he⟩ := ih (divideOut_ne_zero hf) h
      refine ⟨r :: before, r', after, ?_, ?_, fun hall => hnot (hall.tail hf), he⟩
      · rw [hrs, List.cons_append]
      · exact .cons hf (eval_eq_zero_of_divideOut hdiv) hbefore

theorem exists_countRoots_iff (hf : f.toPolynomial ≠ 0) :
    (∃ roots, countRoots f rs = .ok roots) ↔ f.DistinctRoots rs := by
  constructor
  · rintro ⟨roots, h⟩
    exact distinctRoots_of_countRootsFrom hf h
  · intro h
    exact ⟨_, h.countRoots_eq hf⟩

theorem count_map_rootEntry (f : Poly m) (hr : r ∈ rs) :
    RootMultiset.count ⟨rs.map f.rootEntry⟩ r =
      f.toPolynomial.rootMultiplicity (r : ZMod m.value) := by
  unfold RootMultiset.count
  induction rs with
  | nil => cases hr
  | cons r' rs ih =>
    rw [List.map_cons, Poly.rootEntry]
    by_cases hsame : r = r'
    · subst hsame
      rw [List.lookup_cons_self]
      rfl
    · have hskip : (r == r') = false := beq_false_of_ne hsame
      have hmem : r ∈ rs := (List.mem_cons.mp hr).resolve_left hsame
      simpa only [List.lookup_cons, hskip] using ih hmem

end Prime

/-- The linear factors of the roots that are counted make up a factor of the polynomial, over any
modulus. Over a prime modulus distinct roots are counted, each with its multiplicity and in whatever
order, and every other report is refused at the first number that does not belong there. -/
theorem countRoots_exact (m : Modulus) (f : Poly m) (hf : f ≠ 0) (rs : List ℤ) :
    (∀ roots, countRoots f rs = .ok roots →
      (∃ rest : Poly m, f.toPolynomial = roots.product m * rest.toPolynomial) ∧
        roots.total ≤ f.degree) ∧
    (m.value.Prime →
      ((∃ roots, countRoots f rs = .ok roots) ↔ f.DistinctRoots rs) ∧
      (¬ f.DistinctRoots rs → ∃ before r after, rs = before ++ r :: after ∧
        f.DistinctRoots before ∧ ¬ f.DistinctRoots (before ++ [r]) ∧
          countRoots f rs = .error (.notARoot r)) ∧
      ∀ roots, countRoots f rs = .ok roots →
        roots.entries.map (·.1) = rs ∧
        (∀ r ∈ rs, ∃ k : ℕ, roots.count r = k ∧
          IsGreatest {j : ℕ | (X - C (r : ZMod m.value)) ^ j ∣ f.toPolynomial} k) ∧
        ∀ rs', rs'.Perm rs →
          ∃ roots', countRoots f rs' = .ok roots' ∧ roots'.entries.Perm roots.entries) := by
  have hne : f.toPolynomial ≠ 0 := Poly.toPolynomial_eq_zero_iff.not.mpr hf
  refine ⟨fun roots h => ⟨?_, total_le_degree_of_countRoots hne h⟩, fun hm => ?_⟩
  · obtain ⟨rest, -, -, hprod, -⟩ := countRoots_spec hne h
    exact ⟨rest, hprod.symm⟩
  have : Fact m.value.Prime := ⟨hm⟩
  refine ⟨exists_countRoots_iff hne, fun hnot => ?_, fun roots h => ?_⟩
  · cases hresult : countRoots f rs with
    | ok roots => exact absurd ((exists_countRoots_iff hne).mp ⟨roots, hresult⟩) hnot
    | error e =>
      obtain ⟨before, r, after, hrs, hbefore, hfirst, rfl⟩ :=
        exists_first_of_countRootsFrom hne hresult
      exact ⟨before, r, after, hrs, hbefore, hfirst, rfl⟩
  · have hdistinct := (exists_countRoots_iff hne).mp ⟨roots, h⟩
    have heq := Except.ok.inj (h.symm.trans (hdistinct.countRoots_eq hne))
    subst heq
    refine ⟨?_, fun r hr => ⟨_, count_map_rootEntry f hr, ?_⟩, fun rs' hperm => ?_⟩
    · rw [List.map_map]
      exact List.map_id rs
    · exact ⟨pow_rootMultiplicity_dvd _ _, fun k hk => (le_rootMultiplicity_iff hne).mpr hk⟩
    · exact ⟨_, (hdistinct.perm hperm).countRoots_eq hne, hperm.map _⟩

/-- Modulo seven, `3 * (x - 2) ^ 2 * (x - 5) * (x ^ 2 + 1)` has the roots `9` and `-2`, in either
order. -/
theorem countRoots_exact_seven :
    let m : Modulus := ⟨7, by decide⟩
    let f := Poly.ofInts m [-60, 72, -87, 75, -27, 3]
    Nat.Prime 7 ∧ f ≠ 0 ∧ f.DistinctRoots [-2, 9] ∧
      countRoots f [-2, 9] = .ok ⟨[(-2, 1), (9, 2)]⟩ ∧
      IsGreatest {j : ℕ | (X - C ((9 : ℤ) : ZMod m.value)) ^ j ∣ f.toPolynomial} 2 ∧
      ∃ roots, countRoots f [9, -2] = .ok roots ∧ roots.entries.Perm [(-2, 1), (9, 2)] := by
  intro m f
  have hprime : Nat.Prime 7 := by norm_num
  have hf : f ≠ 0 := by decide
  have hrun : countRoots f [-2, 9] = .ok ⟨[(-2, 1), (9, 2)]⟩ := by decide +kernel
  obtain ⟨-, hcounts⟩ := countRoots_exact m f hf [-2, 9]
  obtain ⟨hreturns, -, hexact⟩ := hcounts hprime
  obtain ⟨-, hmultiplicity, hperm⟩ := hexact _ hrun
  obtain ⟨k, hk, hgreatest⟩ := hmultiplicity 9 (by decide)
  have htwo : k = 2 := by
    have hcount : RootMultiset.count ⟨[(-2, 1), (9, 2)]⟩ 9 = 2 := by decide
    omega
  subst htwo
  exact ⟨hprime, hf, hreturns.mp ⟨_, hrun⟩, hrun, hgreatest, hperm [9, -2] (.swap _ _ _)⟩

end MultisetRecovery

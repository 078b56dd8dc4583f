import Mathlib.Data.List.Perm.Basic
import Mathlib.Tactic.NormNum.Prime
import MultisetRecovery.Proofs.Frobenius
import MultisetRecovery.Proofs.Multiplicity
import MultisetRecovery.Random.Tape
import MultisetRecovery.RootSearch.Finder

/-!
# Finders find the same roots

Over a prime modulus a polynomial that is not zero has one multiset of roots, `Poly.rootMultiset`.
Trying every residue finds the roots in ascending order, and the number of roots that the degree
allows is never used up too early. The Frobenius map finds them in an order that depends on the
random shifts, but the multiplicities are counted in ascending order, so both finders return this
very multiset. Its size is the degree exactly for the products of linear polynomials.
-/

open Polynomial

namespace MultisetRecovery

variable {m : Modulus}

/-! ## The roots in ascending order -/

namespace Poly

/-- The residues that are roots, in ascending order. -/
def zeros (f : Poly m) : List (Residue m) :=
  ((List.range m.value).map (Residue.ofNat m)).filter (f.eval · = 0)

@[simp]
theorem mem_zeros {f : Poly m} {a : Residue m} : a ∈ f.zeros ↔ f.eval a = 0 := by
  rw [zeros, List.mem_filter, decide_eq_true_iff, and_iff_right a.mem_map_ofNat_range]

theorem pairwise_zeros (f : Poly m) : f.zeros.Pairwise fun a b => a.val < b.val :=
  (Residue.pairwise_map_ofNat_range m).filter _

theorem nodup_zeros (f : Poly m) : f.zeros.Nodup :=
  f.pairwise_zeros.imp fun h heq => (heq ▸ h).false

/-- The least representatives of the roots, in ascending order. -/
def zeroInts (f : Poly m) : List ℤ := f.zeros.map fun a => (a.val : ℤ)

theorem mem_zeroInts {f : Poly m} {r : ℤ} :
    r ∈ f.zeroInts ↔ m.IsCanonical r ∧ f.eval (Residue.ofInt m r) = 0 := by
  rw [zeroInts, List.mem_map]
  constructor
  · rintro ⟨a, ha, rfl⟩
    refine ⟨a.isCanonical_val, ?_⟩
    rw [Residue.ofInt_val]
    exact mem_zeros.mp ha
  · rintro ⟨hcanonical, hroot⟩
    exact ⟨_, mem_zeros.mpr hroot, Residue.val_ofInt_of_isCanonical hcanonical⟩

theorem nodup_zeroInts (f : Poly m) : f.zeroInts.Nodup := by
  refine f.nodup_zeros.map fun a b hab => Residue.ext ?_
  exact_mod_cast hab

/-- Sorting brings the roots into ascending order, whatever order they are listed in. -/
theorem mergeSort_eq_zeroInts {f : Poly m} {rs : List ℤ} (h : rs.Perm f.zeroInts) :
    rs.mergeSort (· ≤ ·) = f.zeroInts := by
  have hsorted : (rs.mergeSort (· ≤ ·)).Pairwise (· ≤ ·) := List.pairwise_mergeSort' _ _
  have hzeros : f.zeroInts.Pairwise (· ≤ ·) := by
    rw [zeroInts, List.pairwise_map]
    exact f.pairwise_zeros.imp fun hab => by omega
  exact List.Perm.eq_of_pairwise' hsorted hzeros ((List.mergeSort_perm _ _).trans h)

end Poly

/-- As long as there is room for all roots, the search reports each of them. -/
theorem Exhaustive.rootsFrom_eq (f : Poly m) (left r room : ℕ)
    (hroom : (((List.range' r left).map (Residue.ofNat m)).filter (f.eval · = 0)).length ≤ room) :
    rootsFrom f left r room =
      ((List.range' r left).map (Residue.ofNat m)).filter (f.eval · = 0) := by
  induction left generalizing r room with
  | zero => rfl
  | succ left ih =>
    rw [List.range'_succ, List.map_cons] at hroom ⊢
    by_cases hr : f.eval (Residue.ofNat m r) = 0
    · -- The root takes one place, so there was one.
      rw [List.filter_cons_of_pos (by simpa using hr)] at hroom ⊢
      cases room with
      | zero => exact absurd hroom (Nat.not_succ_le_zero _)
      | succ room =>
        rw [rootsFrom, if_pos hr, ih (r + 1) room (Nat.le_of_succ_le_succ hroom)]
    · rw [List.filter_cons_of_neg (by simpa using hr)] at hroom ⊢
      cases room with
      | zero =>
        rw [rootsFrom]
        · exact (List.eq_nil_of_length_eq_zero (Nat.le_zero.mp hroom)).symm
        · simp
      | succ room => rw [rootsFrom, if_neg hr, ih (r + 1) (room + 1) hroom]

/-! ## The multiset of the roots -/

/-- A list of exactly the roots of a polynomial among the least representatives, each once and with
its multiplicity. -/
structure RootMultiset.ListsRoots (s : RootMultiset) (f : Poly m) : Prop where
  /-- No root is listed twice. -/
  nodup : (s.entries.map (·.1)).Nodup
  /-- The least representatives that are listed are the roots. -/
  mem_iff : ∀ r, r ∈ s.entries.map (·.1) ↔ m.IsCanonical r ∧ f.eval (Residue.ofInt m r) = 0
  /-- The multiplicity is the highest power of the linear factor that divides. -/
  multiplicity : ∀ e ∈ s.entries, ∃ k : ℕ, e.2 = k ∧
    (X - C (e.1 : ZMod m.value)) ^ k ∣ f.toPolynomial ∧
    ¬ (X - C (e.1 : ZMod m.value)) ^ (k + 1) ∣ f.toPolynomial

namespace Poly

/-- The roots in ascending order, with their multiplicities. -/
noncomputable def rootMultiset (f : Poly m) : RootMultiset :=
  ⟨(f.zeros.map fun a => (a.val : ℤ)).map f.rootEntry⟩

theorem keys_rootMultiset (f : Poly m) : f.rootMultiset.entries.map (·.1) = f.zeroInts := by
  rw [rootMultiset, List.map_map]
  exact List.map_id _

theorem listsRoots_rootMultiset {f : Poly m} (hf : f.toPolynomial ≠ 0) :
    f.rootMultiset.ListsRoots f := by
  refine ⟨?_, ?_, ?_⟩
  · rw [keys_rootMultiset]
    exact f.nodup_zeroInts
  · intro r
    rw [keys_rootMultiset]
    exact mem_zeroInts
  · intro e he
    obtain ⟨r, -, rfl⟩ := List.mem_map.mp he
    refine ⟨_, rfl, ?_, ?_⟩
    · exact pow_rootMultiplicity_dvd _ _
    · rw [← le_rootMultiplicity_iff hf]
      exact Nat.not_succ_le_self _

section Prime

variable [Fact m.value.Prime]

theorem coe_map_zeros {f : Poly m} (hf : f.toPolynomial ≠ 0) :
    (f.zeros.map Residue.toZMod : Multiset (ZMod m.value)) = f.toPolynomial.roots.dedup :=
  coe_map_eq_dedup_roots hf f.nodup_zeros fun _ => mem_zeros

/-- There is room for all roots. -/
theorem length_zeros_le {f : Poly m} (hf : f.toPolynomial ≠ 0) : f.zeros.length ≤ f.size - 1 := by
  have hcard := congrArg Multiset.card (coe_map_zeros hf)
  rw [Multiset.coe_card, List.length_map] at hcard
  rw [hcard, ← natDegree_toPolynomial]
  exact (Multiset.card_le_card (Multiset.dedup_le _)).trans (card_roots' _)

/-- The multiplicities of the roots are those of the polynomial. -/
theorem total_rootMultiset {f : Poly m} (hf : f.toPolynomial ≠ 0) :
    f.rootMultiset.total = f.toPolynomial.roots.card := by
  have hsum := Multiset.toFinset_sum_count_eq f.toPolynomial.roots
  rw [Finset.sum, Multiset.toFinset_val, ← coe_map_zeros hf, Multiset.map_coe, Multiset.sum_coe,
    List.map_map] at hsum
  rw [RootMultiset.total_eq_sum, rootMultiset, ← hsum, Nat.cast_list_sum, List.map_map,
    List.map_map, List.map_map]
  refine congrArg List.sum (List.map_congr_left fun a _ => ?_)
  simp [rootEntry, Residue.toZMod]

theorem rootEntry_monic {f g : Poly m} (h : f.monic = .ok g) (r : ℤ) :
    g.rootEntry r = f.rootEntry r := by
  rw [rootEntry, rootEntry, ← count_roots, ← count_roots, roots_of_monic h]

theorem eval_monic {f g : Poly m} (h : f.monic = .ok g) (x : Residue m) :
    g.eval x = 0 ↔ f.eval x = 0 := by
  obtain ⟨-, u, v, huv, heq⟩ := monic_spec h
  rw [eval_eq_zero_iff, eval_eq_zero_iff, heq, IsRoot.def, eval_mul, eval_C, mul_eq_zero,
    or_iff_right (left_ne_zero_of_mul_eq_one huv), IsRoot.def]

/-- The monic associate has the same roots with the same multiplicities. -/
theorem rootMultiset_monic {f g : Poly m} (h : f.monic = .ok g) :
    g.rootMultiset = f.rootMultiset := by
  have hzeros : g.zeros = f.zeros := by
    simp only [zeros, eval_monic h]
  rw [rootMultiset, rootMultiset, hzeros]
  congr 1
  exact List.map_congr_left fun r _ => rootEntry_monic h r

end Prime

end Poly

/-! ## Two ways to the same roots -/

/-- What the multiplicities are counted of is the monic associate, and the distinct roots that were
found, in ascending order. -/
theorem Finder.ensures_countedRoots_of_monic {σ : Type} [Source σ] {finder : Finder} {f g : Poly m}
    {P : List ℤ → Prop} {Q : RootMultiset → Prop} {E : Failure → Prop} (hg : f.monic = .ok g)
    (hfound : (finder.distinctRoots g : Search σ _).Ensures P E)
    (hok : ∀ rs roots, P rs → countRoots g (rs.mergeSort (· ≤ ·)) = .ok roots → Q roots)
    (herror : ∀ rs e, P rs → countRoots g (rs.mergeSort (· ≤ ·)) = .error e → E (.internal e)) :
    (finder.countedRoots f : Search σ _).Ensures Q E := by
  have hf : f.isZero = false := by
    obtain ⟨hmonic, u, v, -, heq⟩ := Poly.monic_spec hg
    rw [Poly.isZero_eq_false_iff]
    intro h0
    rw [h0, mul_zero] at heq
    exact hmonic.ne_zero heq
  rw [countedRoots, hf, if_neg Bool.false_ne_true]
  refine (Search.ensures_ofArithmetic hg (Eq.refl g)).bind fun g' hg' => ?_
  cases hg'
  refine hfound.bind fun rs hrs => ?_
  cases hcount : countRoots g (rs.mergeSort (· ≤ ·)) with
  | error e => exact Search.ensures_abandon (herror rs e hrs hcount)
  | ok roots => exact Search.ensures_pure (hok rs roots hrs hcount)

/-- Beyond its limit the search through all residues never returns. -/
theorem Finder.ensures_fieldTooLarge {σ : Type} [Source σ] {limit : ℤ} (hlimit : limit < m.value)
    {f g : Poly m} (hg : f.monic = .ok g) :
    ((exhaustive limit).rootsWithMultiplicity f : Search σ _).Ensures (fun _ => False)
      (· = .internal (.fieldTooLarge m limit)) := by
  have hfound : ((exhaustive limit).distinctRoots g : Search σ _).Ensures (fun _ => False)
      (· = .internal (.fieldTooLarge m limit)) := by
    rw [distinctRoots, Exhaustive.distinctRoots, if_pos hlimit]
    exact Search.ensures_abandon rfl
  exact ensures_countedRoots_of_monic hg hfound (fun _ _ h _ => h) fun _ _ h _ => h.elim

/-- The ways in which a finder that computes the roots can fail over a prime modulus. -/
def Finder.Breaks (m : Modulus) : Finder → Failure → Prop
  | frobenius attempts, e => Frobenius.Exhausted attempts e
  | exhaustive limit, e => limit < m.value ∧ e = .internal (.fieldTooLarge m limit)
  | listed _, _ | tabulated _, _ => False

theorem Finder.Breaks.exists_internal {finder : Finder} {e : Failure} (h : finder.Breaks m e) :
    ∃ cause, e = .internal cause := by
  cases finder with
  | frobenius attempts =>
    obtain ⟨d, rfl⟩ := h
    exact ⟨_, rfl⟩
  | exhaustive limit => exact ⟨_, h.2⟩
  | listed roots => exact h.elim
  | tabulated roots => exact h.elim

section Prime

variable [Fact m.value.Prime]

theorem Exhaustive.distinctRoots_eq {f : Poly m} (hf : f.toPolynomial ≠ 0) {limit : ℤ}
    (hlimit : m.value ≤ limit) : distinctRoots limit f = .ok f.zeros := by
  have hzeros : f.zeros =
      ((List.range' 0 m.value).map (Residue.ofNat m)).filter (f.eval · = 0) := by
    rw [Poly.zeros, List.range_eq_range']
  have hroom := Poly.length_zeros_le hf
  rw [hzeros] at hroom
  rw [distinctRoots, if_neg (by omega), Poly.isZero_eq_false_iff.mpr hf, if_neg Bool.false_ne_true,
    rootsFrom_eq f m.value 0 (f.size - 1) hroom, hzeros]

/-- The distinct roots that were found, in ascending order. -/
theorem mergeSort_eq_zeros {f : Poly m} (hf : f.toPolynomial ≠ 0) {rs : List (Residue m)}
    (h : (rs.map Residue.toZMod : Multiset (ZMod m.value)) = f.toPolynomial.roots.dedup) :
    (rs.map fun a => (a.val : ℤ)).mergeSort (· ≤ ·) = f.zeroInts := by
  have hperm : rs.Perm f.zeros := by
    rw [← Poly.coe_map_zeros hf, Multiset.coe_eq_coe] at h
    exact (List.map_perm_map_iff Residue.toZMod_injective).mp h
  exact Poly.mergeSort_eq_zeroInts (hperm.map _)

/-- The roots in ascending order are counted with their multiplicities. -/
theorem countRoots_zeroInts {f : Poly m} (hf : f.toPolynomial ≠ 0) :
    countRoots f f.zeroInts = .ok f.rootMultiset := by
  rw [countRoots_of_roots hf, Poly.rootMultiset, Poly.zeroInts]
  · intro r hr
    obtain ⟨a, ha, rfl⟩ := List.mem_map.mp hr
    rw [Int.cast_natCast]
    exact Poly.eval_eq_zero_iff.mp (Poly.mem_zeros.mp ha)
  · rw [Poly.zeroInts, List.map_map]
    refine f.nodup_zeros.map fun a b hab => Residue.toZMod_injective ?_
    simpa [Residue.toZMod] using hab

variable {σ : Type} [Source σ]

/-- The multiplicities of the distinct roots, once they are found. -/
theorem Finder.ensures_countedRoots {finder : Finder} {E : Failure → Prop} {f : Poly m}
    (hf : f.toPolynomial ≠ 0)
    (hfound : ∀ g : Poly m, f.monic = .ok g → (finder.distinctRoots g : Search σ _).Ensures
      (fun rs => rs.mergeSort (· ≤ ·) = g.zeroInts) E) :
    (finder.countedRoots f : Search σ _).Ensures (· = f.rootMultiset) E := by
  obtain ⟨g, hg⟩ := Poly.exists_monic (Poly.isUnit_lead hf)
  have hcount := countRoots_zeroInts (Poly.monic_spec hg).1.ne_zero
  rw [Poly.rootMultiset_monic hg] at hcount
  refine ensures_countedRoots_of_monic hg (hfound g hg) ?_ ?_
  · intro rs roots hrs hroots
    rw [hrs, hcount] at hroots
    exact (Except.ok.inj hroots).symm
  · intro rs e hrs he
    rw [hrs, hcount] at he
    cases he

namespace Finder

/-- Whether a finder computes the roots itself. -/
def Computes : Finder → Prop
  | frobenius _ | exhaustive _ => True
  | listed _ | tabulated _ => False

theorem ensures_frobenius (attempts : ℤ) {f : Poly m} (hf : f.toPolynomial ≠ 0) :
    ((frobenius attempts).rootsWithMultiplicity f : Search σ _).Ensures (· = f.rootMultiset)
      (Frobenius.Exhausted attempts) := by
  refine ensures_countedRoots hf fun g hg => ?_
  have hne := (Poly.monic_spec hg).1.ne_zero
  refine (Frobenius.ensures_distinctRoots attempts hne).bind fun rs hrs => ?_
  exact Search.ensures_pure (mergeSort_eq_zeros hne hrs)

/-- Within its limit the search through all residues always returns. -/
theorem ensures_exhaustive {limit : ℤ} (hlimit : m.value ≤ limit) {f : Poly m}
    (hf : f.toPolynomial ≠ 0) :
    ((exhaustive limit).rootsWithMultiplicity f : Search σ _).Ensures (· = f.rootMultiset)
      (fun _ => False) := by
  refine ensures_countedRoots hf fun g hg => ?_
  rw [distinctRoots, Exhaustive.distinctRoots_eq (Poly.monic_spec hg).1.ne_zero hlimit]
  exact Search.ensures_pure (Poly.mergeSort_eq_zeroInts (List.Perm.refl _))

/-- Whatever a finder computes is right. -/
theorem ensures_breaks {finder : Finder} (h : finder.Computes) {f : Poly m}
    (hf : f.toPolynomial ≠ 0) :
    (finder.rootsWithMultiplicity f : Search σ _).Ensures (· = f.rootMultiset)
      (finder.Breaks m) := by
  cases finder with
  | frobenius attempts => exact ensures_frobenius attempts hf
  | exhaustive limit =>
    by_cases hlimit : m.value ≤ limit
    · exact (ensures_exhaustive hlimit hf).mono (fun _ => id) fun _ => False.elim
    · have hlt : limit < m.value := by omega
      obtain ⟨g, hg⟩ := Poly.exists_monic (Poly.isUnit_lead hf)
      exact (ensures_fieldTooLarge hlt hg).mono (fun _ => False.elim) fun _ he => ⟨hlt, he⟩
  | listed roots => exact h.elim
  | tabulated roots => exact h.elim

/-- If a finder has nothing to return then a step has failed. -/
theorem ensures_computes {finder : Finder} (h : finder.Computes) {f : Poly m}
    (hf : f.toPolynomial ≠ 0) :
    (finder.rootsWithMultiplicity f : Search σ _).Ensures (· = f.rootMultiset)
      (fun e => ∃ cause, e = .internal cause) :=
  (ensures_breaks h hf).mono (fun _ => id) fun _ he => he.exists_internal

end Finder

/-- The roots number as many as the degree exactly for a product of linear polynomials. -/
theorem Poly.total_eq_degree_iff {f : Poly m} (hf : f.toPolynomial ≠ 0) :
    f.rootMultiset.total = f.degree ↔
      ∃ (c : Residue m) (rs : List (Residue m)), f = (Poly.ofRoots rs).scale c := by
  rw [total_rootMultiset hf, degree_eq hf, Nat.cast_inj, ← splits_iff_card_roots]
  constructor
  · intro hsplits
    obtain ⟨rs, hrs⟩ : ∃ rs : List (Residue m), (rs.map Residue.toZMod : Multiset _) =
        f.toPolynomial.roots := by
      refine ⟨f.toPolynomial.roots.toList.map .ofZMod, ?_⟩
      rw [List.map_map]
      simp [Function.comp_def]
    refine ⟨f.lead, rs, toPolynomial_injective ?_⟩
    rw [toPolynomial_scale, toPolynomial_ofRoots, ← leadingCoeff_toPolynomial]
    conv_lhs => rw [hsplits.eq_prod_roots, ← hrs]
    simp [Function.comp_def]
  · rintro ⟨c, rs, rfl⟩
    rw [toPolynomial_scale, toPolynomial_ofRoots]
    refine (Splits.listProd fun g hg => ?_).C_mul _
    obtain ⟨r, -, rfl⟩ := List.mem_map.mp hg
    exact Splits.X_sub_C r.toZMod

end Prime

/-- Over a prime modulus there is one answer. Whatever numbers are drawn, the search by the
Frobenius map returns it unless the shifts for a split are used up, and the search through all
residues always returns it. Its size tells the products of linear polynomials from all others. -/
theorem rootsWithMultiplicity_exact (m : Modulus) (hm : m.value.Prime) (f : Poly m) (hf : f ≠ 0) :
    ∃ roots : RootMultiset, roots.ListsRoots f ∧ ∀ (σ : Type) [Source σ],
      (∀ attempts : ℤ, ((Finder.frobenius attempts).rootsWithMultiplicity f : Search σ _).Ensures
        (· = roots) (Frobenius.Exhausted attempts)) ∧
      (∀ limit : ℤ, m.value ≤ limit →
        ((Finder.exhaustive limit).rootsWithMultiplicity f : Search σ _).Ensures
          (· = roots) (fun _ => False)) ∧
      ∀ finder : Finder, finder.Computes → (finder.splitsCompletely f : Search σ _).Ensures
        (fun b => b = true ↔
          ∃ (c : Residue m) (rs : List (Residue m)), f = (Poly.ofRoots rs).scale c)
        (fun e => ∃ cause, e = .internal cause) := by
  have : Fact m.value.Prime := ⟨hm⟩
  have hne : f.toPolynomial ≠ 0 := by
    rwa [← Poly.toPolynomial_zero, Ne, Poly.toPolynomial_inj]
  refine ⟨f.rootMultiset, Poly.listsRoots_rootMultiset hne, fun σ _ => ⟨?_, ?_, ?_⟩⟩
  · intro attempts
    exact Finder.ensures_frobenius attempts hne
  · intro limit hlimit
    exact Finder.ensures_exhaustive hlimit hne
  · intro finder hfinder
    refine (Finder.ensures_computes hfinder hne).bind fun roots hroots => ?_
    apply Search.ensures_pure
    rw [hroots, decide_eq_true_iff, Poly.total_eq_degree_iff hne]

/-- Modulo seven, `3 * (x - 1) * (x - 2) ^ 2 * (x ^ 2 + 1)` has the root one and the double root
two. Both are squares, so the shift zero leaves them together, and the shift two splits them. -/
theorem rootsWithMultiplicity_exact_seven :
    let f : Poly ⟨7, by decide⟩ := Poly.ofInts _ [-12, 24, -27, 27, -15, 3]
    let run := ((Finder.frobenius 2).rootsWithMultiplicity f).run.run (.fresh (Tape.ofList [0, 2]))
    Nat.Prime 7 ∧ f ≠ 0 ∧ run.1 = .ok ⟨[(1, 1), (2, 2)]⟩ ∧ run.2.sampler.draws = 2 ∧
      ∀ (σ : Type) [Source σ],
        (∀ attempts : ℤ, ((Finder.frobenius attempts).rootsWithMultiplicity f : Search σ _).Ensures
          (· = ⟨[(1, 1), (2, 2)]⟩) (Frobenius.Exhausted attempts)) ∧
        ((Finder.exhaustive 7).rootsWithMultiplicity f : Search σ _).Ensures
          (· = ⟨[(1, 1), (2, 2)]⟩) (fun _ => False) := by
  intro f run
  have hprime : Nat.Prime 7 := by norm_num
  have hne : f ≠ 0 := by decide
  obtain ⟨hrun, hdraws⟩ : run.1 = .ok ⟨[(1, 1), (2, 2)]⟩ ∧ run.2.sampler.draws = 2 := by
    simp only [run, Finder.rootsWithMultiplicity, Finder.countedRoots,
      List.mergeSort_eq_insertionSort]
    decide +kernel
  obtain ⟨roots, -, hroots⟩ := rootsWithMultiplicity_exact ⟨7, by decide⟩ hprime f hne
  obtain rfl : ⟨[(1, 1), (2, 2)]⟩ = roots := ((hroots Tape).1 2).of_ok hrun
  refine ⟨hprime, hne, hrun, hdraws, fun σ _ => ?_⟩
  obtain ⟨hfrobenius, hexhaustive, -⟩ := hroots σ
  exact ⟨hfrobenius, hexhaustive 7 (by decide)⟩

end MultisetRecovery

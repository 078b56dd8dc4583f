import Mathlib.Algebra.Polynomial.Roots
import MultisetRecovery.Proofs.Division
import MultisetRecovery.RootSearch.Multiplicity

/-!
# Multiplicities by division

Dividing out `x - r` as often as possible counts the multiplicity of `r`. For a list of reported
roots the product of the linear factors that were counted, times what is left, is the polynomial,
over any modulus (`countRoots_spec`). Over a prime modulus a list of distinct roots gets exactly
their multiplicities, in whatever order they are reported (`countRoots_of_roots`).
-/

open Polynomial

namespace MultisetRecovery

variable {m : Modulus}

/-! ## One root -/

theorem divideOut_spec (r : Residue m) (f : Poly m) :
    f.toPolynomial =
      (X - C r.toZMod) ^ (divideOut r f).1 * (divideOut r f).2.toPolynomial := by
  fun_induction divideOut r f with
  | case1 f _ h k rest hrec ih =>
    rw [hrec] at ih
    conv_lhs => rw [Poly.eq_mul_add_deflate f r, h, ih]
    rw [Residue.toZMod_zero, C_0]
    ring
  | case2 f _ h => simp
  | case3 f h => simp

/-- What is left of a polynomial that is not zero does not vanish at `r`. -/
theorem not_isRoot_divideOut (r : Residue m) (f : Poly m) (hf : f.toPolynomial ≠ 0) :
    ¬ (divideOut r f).2.toPolynomial.IsRoot r.toZMod := by
  fun_induction divideOut r f with
  | case1 f _ h k rest hrec ih =>
    rw [hrec] at ih
    apply ih
    intro h0
    apply hf
    rw [Poly.eq_mul_add_deflate f r, h, h0]
    simp
  | case2 f _ h =>
    rwa [← Poly.eval_eq_zero_iff, ← Poly.deflate_snd]
  | case3 f h =>
    -- What is not zero and has no more than one coefficient is constant.
    have hdeg : f.toPolynomial.natDegree = 0 := by
      rw [Poly.natDegree_toPolynomial]
      omega
    rw [eq_C_of_natDegree_eq_zero hdeg] at hf ⊢
    rw [IsRoot.def, eval_C]
    intro h0
    rw [h0, C_0] at hf
    exact hf rfl

theorem divideOut_ne_zero {r : Residue m} {f : Poly m} (hf : f.toPolynomial ≠ 0) :
    (divideOut r f).2.toPolynomial ≠ 0 := by
  intro h
  apply hf
  rw [divideOut_spec r f, h, mul_zero]

/-- The divisions count the multiplicity. -/
theorem divideOut_fst {r : Residue m} {f : Poly m} (hf : f.toPolynomial ≠ 0) :
    (divideOut r f).1 = f.toPolynomial.rootMultiplicity r.toZMod := by
  have hspec := divideOut_spec r f
  rw [mul_comm] at hspec
  rw [hspec, rootMultiplicity_mul_X_sub_C_pow (divideOut_ne_zero hf),
    rootMultiplicity_eq_zero (not_isRoot_divideOut r f hf), Nat.zero_add]

/-! ## A list of roots -/

namespace RootMultiset

/-- The product of the linear factors of the roots, each as often as its multiplicity says. -/
noncomputable def product (m : Modulus) (s : RootMultiset) : (ZMod m.value)[X] :=
  (s.entries.map fun e => (X - C (e.1 : ZMod m.value)) ^ e.2.toNat).prod

@[simp]
theorem product_empty : product m empty = 1 := rfl

theorem total_eq_sum (s : RootMultiset) : s.total = (s.entries.map (·.2)).sum := by
  rw [total, List.sum, List.foldr_map]

theorem monic_product (s : RootMultiset) : (s.product m).Monic := by
  obtain ⟨es⟩ := s
  unfold product
  induction es with
  | nil => exact monic_one
  | cons e es ih =>
    rw [List.map_cons, List.prod_cons]
    exact ((monic_X_sub_C _).pow _).mul ih

/-- The degree of the product is the number of the roots. -/
theorem natDegree_product {s : RootMultiset} (h : ∀ e ∈ s.entries, 0 ≤ e.2) :
    ((s.product m).natDegree : ℤ) = s.total := by
  obtain ⟨es⟩ := s
  induction es with
  | nil => simp [product, total]
  | cons e es ih =>
    have hhead : 0 ≤ e.2 := h e List.mem_cons_self
    have htail := ih fun e' he' => h e' (List.mem_cons_of_mem e he')
    have hpower : ((X - C (e.1 : ZMod m.value)) ^ e.2.toNat).Monic := (monic_X_sub_C _).pow _
    have hsplit : product m ⟨e :: es⟩ =
        (X - C (e.1 : ZMod m.value)) ^ e.2.toNat * product m ⟨es⟩ := rfl
    have htotal : total ⟨e :: es⟩ = e.2 + total ⟨es⟩ := rfl
    rw [hsplit, htotal, hpower.natDegree_mul (monic_product _), (monic_X_sub_C _).natDegree_pow,
      natDegree_X_sub_C, mul_one, Nat.cast_add, Int.toNat_of_nonneg hhead, htail]

theorem entries_insert {s : RootMultiset} {r k : ℤ} (h : ∀ e ∈ s.entries, e.1 ≠ r) :
    (s.insert r k).entries = s.entries ++ [(r, k)] := by
  obtain ⟨es⟩ := s
  show setEntry r k es = es ++ [(r, k)]
  induction es with
  | nil => rfl
  | cons e es ih =>
    have he : e.1 ≠ r := h e List.mem_cons_self
    rw [setEntry, if_neg he, ih fun e' he' => h e' (List.mem_cons_of_mem e he')]
    rfl

theorem mem_keys_setEntry {r k : ℤ} {es : List (ℤ × ℤ)} {x : ℤ} :
    x ∈ (setEntry r k es).map (·.1) ↔ x ∈ es.map (·.1) ∨ x = r := by
  induction es with
  | nil => simp [setEntry]
  | cons e es ih =>
    rw [setEntry]
    split
    · rename_i her
      rw [List.map_cons, List.map_cons, List.mem_cons, List.mem_cons, her]
      tauto
    · rw [List.map_cons, List.map_cons, List.mem_cons, List.mem_cons, ih, or_assoc]

/-- No root is entered twice: one that is there already keeps its place. -/
theorem nodup_keys_insert {s : RootMultiset} (h : (s.entries.map (·.1)).Nodup) (r k : ℤ) :
    ((s.insert r k).entries.map (·.1)).Nodup := by
  obtain ⟨es⟩ := s
  show ((setEntry r k es).map (·.1)).Nodup
  induction es with
  | nil => exact List.nodup_singleton r
  | cons e es ih =>
    obtain ⟨hnotin, hes⟩ := List.nodup_cons.mp h
    rw [setEntry]
    split
    · rename_i her
      subst her
      exact h
    · rename_i her
      rw [List.map_cons, List.nodup_cons, mem_keys_setEntry]
      exact ⟨not_or.mpr ⟨hnotin, her⟩, ih hes⟩

theorem product_insert {s : RootMultiset} {r k : ℤ} (h : ∀ e ∈ s.entries, e.1 ≠ r) :
    (s.insert r k).product m = s.product m * (X - C (r : ZMod m.value)) ^ k.toNat := by
  rw [product, entries_insert h, List.map_append, List.prod_append]
  simp [product]

end RootMultiset

/-- The roots counted so far are none of the polynomial that is left. -/
def Counted (counted : RootMultiset) (f : Poly m) : Prop :=
  ∀ e ∈ counted.entries, ¬ f.toPolynomial.IsRoot (e.1 : ZMod m.value)

theorem counted_empty {f : Poly m} : Counted RootMultiset.empty f := by
  intro e he
  cases he

theorem Counted.ne {counted : RootMultiset} {f : Poly m} (h : Counted counted f) {r : ℤ}
    (hr : f.toPolynomial.IsRoot (r : ZMod m.value)) : ∀ e ∈ counted.entries, e.1 ≠ r := by
  intro e he her
  exact h e he (her ▸ hr)

/-- Counting one more root keeps the roots so far apart from what is left. -/
theorem Counted.insert {counted : RootMultiset} {f : Poly m} (hf : f.toPolynomial ≠ 0)
    (h : Counted counted f) {r : ℤ} (hr : f.toPolynomial.IsRoot (r : ZMod m.value)) (k : ℤ) :
    Counted (counted.insert r k) (divideOut (Residue.ofInt m r) f).2 := by
  intro e he
  rw [RootMultiset.entries_insert (h.ne hr), List.mem_append, List.mem_singleton] at he
  rcases he with he | rfl
  · intro hroot
    apply h e he
    rw [divideOut_spec (Residue.ofInt m r) f, IsRoot.def, eval_mul, hroot, mul_zero]
  · have hleft := not_isRoot_divideOut (Residue.ofInt m r) f hf
    rwa [Residue.toZMod_ofInt] at hleft

theorem isRoot_of_divideOut_fst {f : Poly m} {r : ℤ} {k : ℕ}
    (h : (divideOut (Residue.ofInt m r) f).1 = k + 1) :
    f.toPolynomial.IsRoot (r : ZMod m.value) := by
  rw [divideOut_spec (Residue.ofInt m r) f, h, IsRoot.def, eval_mul, Residue.toZMod_ofInt]
  simp

/-- The roots that were counted make up the polynomial together with what is left of it. -/
theorem countRootsFrom_spec {counted roots : RootMultiset} {f : Poly m} {rs : List ℤ}
    (hf : f.toPolynomial ≠ 0) (hcounted : Counted counted f)
    (h : countRootsFrom counted f rs = .ok roots) :
    ∃ rest : Poly m, rest.toPolynomial ≠ 0 ∧ Counted roots rest ∧
      roots.product m * rest.toPolynomial = counted.product m * f.toPolynomial ∧
      roots.entries.map (·.1) = counted.entries.map (·.1) ++ rs := by
  induction rs generalizing counted f with
  | nil =>
    cases h
    exact ⟨f, hf, hcounted, rfl, by simp⟩
  | cons r rs ih =>
    rw [countRootsFrom] at h
    split at h
    · cases h
    · rename_i k left hdiv
      have hfst : (divideOut (Residue.ofInt m r) f).1 = k + 1 := by rw [hdiv]
      have hsnd : (divideOut (Residue.ofInt m r) f).2 = left := by rw [hdiv]
      have hroot := isRoot_of_divideOut_fst hfst
      obtain ⟨rest, hne, hrest, hprod, hkeys⟩ := ih (hsnd ▸ divideOut_ne_zero hf)
        (hsnd ▸ hcounted.insert hf hroot (k + 1)) h
      refine ⟨rest, hne, hrest, ?_, ?_⟩
      · have hspec := divideOut_spec (Residue.ofInt m r) f
        rw [hfst, hsnd, Residue.toZMod_ofInt] at hspec
        rw [hprod, RootMultiset.product_insert (hcounted.ne hroot), hspec]
        have hk : ((k : ℤ) + 1).toNat = k + 1 := by omega
        rw [hk]
        ring
      · rw [hkeys, RootMultiset.entries_insert (hcounted.ne hroot)]
        simp

theorem nodup_countRootsFrom {counted roots : RootMultiset} {f : Poly m} {rs : List ℤ}
    (hcounted : (counted.entries.map (·.1)).Nodup) (h : countRootsFrom counted f rs = .ok roots) :
    (roots.entries.map (·.1)).Nodup := by
  induction rs generalizing counted f with
  | nil =>
    cases h
    exact hcounted
  | cons r rs ih =>
    rw [countRootsFrom] at h
    split at h
    · cases h
    · exact ih (RootMultiset.nodup_keys_insert hcounted r _) h

/-- Nothing else can be wrong with reported roots than that one is none. -/
theorem eq_notARoot_of_countRootsFrom {counted : RootMultiset} {f : Poly m} {rs : List ℤ}
    {e : InternalError} (h : countRootsFrom counted f rs = .error e) :
    ∃ r ∈ rs, e = .notARoot r := by
  induction rs generalizing counted f with
  | nil => cases h
  | cons r rs ih =>
    rw [countRootsFrom] at h
    split at h
    · cases h
      exact ⟨r, List.mem_cons_self, rfl⟩
    · obtain ⟨r', hr', he⟩ := ih h
      exact ⟨r', List.mem_cons_of_mem r hr', he⟩

theorem countRoots_spec {roots : RootMultiset} {f : Poly m} {rs : List ℤ}
    (hf : f.toPolynomial ≠ 0) (h : countRoots f rs = .ok roots) :
    ∃ rest : Poly m, rest.toPolynomial ≠ 0 ∧ Counted roots rest ∧
      roots.product m * rest.toPolynomial = f.toPolynomial ∧ roots.entries.map (·.1) = rs := by
  obtain ⟨rest, hne, hrest, hprod, hkeys⟩ := countRootsFrom_spec hf counted_empty h
  exact ⟨rest, hne, hrest, by simpa using hprod, by simpa [RootMultiset.empty] using hkeys⟩

theorem nodup_countRoots {roots : RootMultiset} {f : Poly m} {rs : List ℤ}
    (h : countRoots f rs = .ok roots) : (roots.entries.map (·.1)).Nodup := by
  have hempty : (RootMultiset.empty.entries.map (·.1)).Nodup := List.nodup_nil
  exact nodup_countRootsFrom hempty h

/-! ## Prime moduli -/

/-- A root with its multiplicity. -/
noncomputable def Poly.rootEntry (f : Poly m) (r : ℤ) : ℤ × ℤ :=
  (r, f.toPolynomial.rootMultiplicity (r : ZMod m.value))

section Prime

variable [Fact m.value.Prime]

/-- Dividing out one root leaves the multiplicities of all others. -/
theorem rootMultiplicity_divideOut {f : Poly m} (hf : f.toPolynomial ≠ 0) {r : Residue m}
    {x : ZMod m.value} (hx : x ≠ r.toZMod) :
    (divideOut r f).2.toPolynomial.rootMultiplicity x = f.toPolynomial.rootMultiplicity x := by
  have hspec := divideOut_spec r f
  have hne : (X - C r.toZMod) ^ (divideOut r f).1 * (divideOut r f).2.toPolynomial ≠ 0 :=
    hspec ▸ hf
  have hpow : ¬ ((X - C r.toZMod) ^ (divideOut r f).1).IsRoot x := by
    rw [IsRoot.def, eval_pow, eval_sub, eval_X, eval_C]
    exact pow_ne_zero _ (sub_ne_zero.mpr hx)
  conv_rhs => rw [hspec, rootMultiplicity_mul hne, rootMultiplicity_eq_zero hpow, Nat.zero_add]

theorem exists_divideOut_of_isRoot {f : Poly m} (hf : f.toPolynomial ≠ 0) {r : ℤ}
    (hr : f.toPolynomial.IsRoot (r : ZMod m.value)) :
    ∃ (k : ℕ) (left : Poly m), divideOut (Residue.ofInt m r) f = (k + 1, left) ∧
      f.rootEntry r = (r, (k : ℤ) + 1) := by
  obtain ⟨k, hk⟩ := Nat.exists_eq_add_of_le' ((rootMultiplicity_pos hf).mpr hr)
  have hfst := divideOut_fst (r := Residue.ofInt m r) hf
  rw [Residue.toZMod_ofInt, hk] at hfst
  refine ⟨k, (divideOut (Residue.ofInt m r) f).2, Prod.ext hfst rfl, ?_⟩
  rw [Poly.rootEntry, hk, Nat.cast_succ]

/-- Distinct roots are counted with their multiplicities, whatever their order. -/
theorem countRootsFrom_of_roots {counted : RootMultiset} {f : Poly m} {rs : List ℤ}
    (hf : f.toPolynomial ≠ 0) (hcounted : Counted counted f)
    (hroots : ∀ r ∈ rs, f.toPolynomial.IsRoot (r : ZMod m.value))
    (hdistinct : (rs.map (Int.cast : ℤ → ZMod m.value)).Nodup) :
    countRootsFrom counted f rs = .ok ⟨counted.entries ++ rs.map f.rootEntry⟩ := by
  induction rs generalizing counted f with
  | nil => simp [countRootsFrom]
  | cons r rs ih =>
    rw [List.map_cons, List.nodup_cons] at hdistinct
    obtain ⟨hnotin, hdistinct⟩ := hdistinct
    have hroot := hroots r List.mem_cons_self
    obtain ⟨k, left, hdiv, hentry⟩ := exists_divideOut_of_isRoot hf hroot
    have hleft : left = (divideOut (Residue.ofInt m r) f).2 := by rw [hdiv]
    have hne : left.toPolynomial ≠ 0 := hleft ▸ divideOut_ne_zero hf
    -- The roots to come are as multiple in what is left as in the whole.
    have hmult : ∀ r' ∈ rs, left.toPolynomial.rootMultiplicity (r' : ZMod m.value) =
        f.toPolynomial.rootMultiplicity (r' : ZMod m.value) := by
      intro r' hr'
      rw [hleft]
      apply rootMultiplicity_divideOut hf
      intro heq
      rw [Residue.toZMod_ofInt] at heq
      exact hnotin (heq ▸ List.mem_map_of_mem hr')
    have hothers : ∀ r' ∈ rs, left.toPolynomial.IsRoot (r' : ZMod m.value) := by
      intro r' hr'
      rw [← rootMultiplicity_pos hne, hmult r' hr', rootMultiplicity_pos hf]
      exact hroots r' (List.mem_cons_of_mem r hr')
    have hsame : ∀ r' ∈ rs, left.rootEntry r' = f.rootEntry r' := by
      intro r' hr'
      rw [Poly.rootEntry, Poly.rootEntry, hmult r' hr']
    have hrec := ih hne (hleft ▸ hcounted.insert hf hroot (k + 1)) hothers hdistinct
    rw [countRootsFrom, hdiv]
    simp only
    rw [hrec, RootMultiset.entries_insert (hcounted.ne hroot), List.append_assoc, List.map_cons,
      hentry, List.map_congr_left hsame, List.singleton_append]

theorem countRoots_of_roots {f : Poly m} {rs : List ℤ} (hf : f.toPolynomial ≠ 0)
    (hroots : ∀ r ∈ rs, f.toPolynomial.IsRoot (r : ZMod m.value))
    (hdistinct : (rs.map (Int.cast : ℤ → ZMod m.value)).Nodup) :
    countRoots f rs = .ok ⟨rs.map f.rootEntry⟩ := by
  rw [countRoots, countRootsFrom_of_roots hf counted_empty hroots hdistinct]
  rfl

end Prime

end MultisetRecovery

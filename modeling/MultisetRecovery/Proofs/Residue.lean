import Mathlib.Data.ZMod.Basic
import Mathlib.Tactic.LinearCombination
import Mathlib.Tactic.Ring
import MultisetRecovery.Proofs.Computation
import MultisetRecovery.Residue.Batch

/-!
# Residues as elements of `ZMod`

`Residue.toZMod` reads a residue as an element of `ZMod m.value`. The reading is a bijection that
carries every operation on residues over to the ring operation, so all later statements are about
`ZMod m.value`, over prime and composite moduli alike. An inverse is computed exactly for the units,
one at a time (`inverse_eq_ok_iff`) and many at once (`invertAll_eq_ok_iff`).
-/

namespace MultisetRecovery

instance (m : Modulus) : NeZero m.value := ⟨m.value_pos.ne'⟩

instance (m : Modulus) : Fact (1 < m.value) := ⟨m.one_lt_value⟩

/-- A power by the lowest bit of its exponent and the square of its base. -/
theorem pow_eq_pow_mod_two_mul {M : Type*} [Monoid M] (x : M) (k : ℕ) :
    x ^ k = x ^ (k % 2) * (x * x) ^ (k / 2) := by
  rw [← pow_two, ← pow_mul, ← pow_add, Nat.mod_add_div]

theorem Modulus.value_of_ofInt {v : ℤ} {m : Modulus} (h : ofInt v = .ok m) :
    m.value = v.toNat := by
  unfold ofInt at h
  split at h
  · cases h
    rfl
  · cases h

namespace Residue

variable {m : Modulus}

/-! ## The view -/

/-- The element of `ZMod m.value` that a residue stands for. -/
def toZMod (a : Residue m) : ZMod m.value := (a.val : ZMod m.value)

/-- The residue that stands for an element of `ZMod m.value`. -/
def ofZMod (x : ZMod m.value) : Residue m := ⟨x.val, x.val_lt⟩

@[simp]
theorem val_toZMod (a : Residue m) : a.toZMod.val = a.val := by
  rw [toZMod, ZMod.val_natCast, Nat.mod_eq_of_lt a.val_lt]

@[simp]
theorem toZMod_ofZMod (x : ZMod m.value) : (ofZMod x).toZMod = x := ZMod.natCast_zmod_val x

@[simp]
theorem ofZMod_toZMod (a : Residue m) : ofZMod a.toZMod = a := ext (val_toZMod a)

theorem toZMod_injective : Function.Injective (toZMod (m := m)) := fun a b h => by
  rw [← ofZMod_toZMod a, h, ofZMod_toZMod]

theorem toZMod_surjective : Function.Surjective (toZMod (m := m)) := fun x =>
  ⟨ofZMod x, toZMod_ofZMod x⟩

theorem toZMod_inj {a b : Residue m} : a.toZMod = b.toZMod ↔ a = b := toZMod_injective.eq_iff

@[simp]
theorem toZMod_ofNat (n : ℕ) : (ofNat m n).toZMod = n := by
  rw [toZMod, val_ofNat, ZMod.natCast_mod]

@[simp]
theorem toZMod_ofInt (v : ℤ) : (ofInt m v).toZMod = v := by
  rw [toZMod, ← Int.cast_natCast, val_ofInt, ZMod.intCast_mod]

@[simp]
theorem toZMod_zero : (0 : Residue m).toZMod = 0 := by simp [toZMod]

@[simp]
theorem ofInt_zero : ofInt m 0 = 0 := toZMod_injective (by simp)

@[simp]
theorem toZMod_one : (1 : Residue m).toZMod = 1 := by simp [toZMod]

@[simp]
theorem toZMod_eq_zero_iff {a : Residue m} : a.toZMod = 0 ↔ a = 0 := by
  rw [← toZMod_zero, toZMod_inj]

@[simp]
theorem toZMod_eq_one_iff {a : Residue m} : a.toZMod = 1 ↔ a = 1 := by
  rw [← toZMod_one, toZMod_inj]

@[simp]
theorem toZMod_add (a b : Residue m) : (a + b).toZMod = a.toZMod + b.toZMod := by
  simp [toZMod]

@[simp]
theorem toZMod_mul (a b : Residue m) : (a * b).toZMod = a.toZMod * b.toZMod := by
  simp [toZMod]

@[simp]
theorem toZMod_neg (a : Residue m) : (-a).toZMod = -a.toZMod := by
  simp [toZMod, Nat.cast_sub a.val_lt.le]

@[simp]
theorem toZMod_sub (a b : Residue m) : (a - b).toZMod = a.toZMod - b.toZMod := by
  simp [toZMod, Nat.cast_sub b.val_lt.le, sub_eq_add_neg]

@[simp]
theorem toZMod_mulAdd (c x y : Residue m) :
    (mulAdd c x y).toZMod = c.toZMod * x.toZMod + y.toZMod := by
  simp [toZMod]

/-- Repeated squaring keeps `acc * x ^ k`. -/
theorem toZMod_powFrom (acc x : Residue m) (k : ℕ) :
    (powFrom acc x k).toZMod = acc.toZMod * x.toZMod ^ k := by
  fun_induction powFrom acc x k with
  | case1 acc x => simp
  | case2 acc x k hk ih =>
    rw [dite_eq_ite] at ih
    rw [ih, toZMod_mul, pow_eq_pow_mod_two_mul x.toZMod k]
    rcases Nat.mod_two_eq_zero_or_one k with hbit | hbit
    · simp [hbit]
    · simp [hbit, mul_assoc]

@[simp]
theorem toZMod_pow (x : Residue m) (k : ℕ) : (x ^ k).toZMod = x.toZMod ^ k := by
  show (powFrom 1 x k).toZMod = _
  rw [toZMod_powFrom, toZMod_one, one_mul]

theorem ofInt_eq_ofInt_iff {a b : ℤ} : ofInt m a = ofInt m b ↔ a ≡ b [ZMOD m.value] := by
  rw [← toZMod_inj, toZMod_ofInt, toZMod_ofInt]
  exact ZMod.intCast_eq_intCast_iff a b m.value

/-- An integer that is a least representative is read as the residue with that representative. -/
theorem ofInt_val (a : Residue m) : ofInt m a.val = a := by
  apply toZMod_injective
  rw [toZMod_ofInt, Int.cast_natCast, toZMod]

theorem isCanonical_val (a : Residue m) : m.IsCanonical a.val :=
  ⟨Int.natCast_nonneg _, Int.ofNat_lt.mpr a.val_lt⟩

theorem val_ofInt_of_isCanonical {v : ℤ} (h : m.IsCanonical v) : ((ofInt m v).val : ℤ) = v := by
  rw [val_ofInt, Int.emod_eq_of_lt h.1 h.2]

@[simp]
theorem ofNat_val (a : Residue m) : ofNat m a.val = a := ext (Nat.mod_eq_of_lt a.val_lt)

theorem mem_map_ofNat_range (a : Residue m) : a ∈ (List.range m.value).map (ofNat m) :=
  List.mem_map.mpr ⟨a.val, List.mem_range.mpr a.val_lt, a.ofNat_val⟩

theorem pairwise_map_ofNat_range (m : Modulus) :
    ((List.range m.value).map (ofNat m)).Pairwise fun a b => a.val < b.val := by
  rw [List.pairwise_map]
  refine List.pairwise_lt_range.imp_of_mem ?_
  intro a b ha hb hab
  rwa [val_ofNat, val_ofNat, Nat.mod_eq_of_lt (List.mem_range.mp ha),
    Nat.mod_eq_of_lt (List.mem_range.mp hb)]

theorem map_ofInt_val (as : List (Residue m)) :
    (as.map fun a => (a.val : ℤ)).map (ofInt m) = as := by
  rw [List.map_map]
  conv_rhs => rw [← List.map_id as]
  exact List.map_congr_left fun a _ => ofInt_val a

theorem isUnit_toZMod_iff {a : Residue m} : IsUnit a.toZMod ↔ Nat.Coprime a.val m.value :=
  ZMod.isUnit_iff_coprime a.val m.value

/-! ## The inverse -/

theorem fst_euclid (r : ℕ) (s : ℤ) (r' : ℕ) (s' : ℤ) : (euclid r s r' s').1 = Nat.gcd r r' := by
  fun_induction euclid r s r' s' with
  | case1 r s s' => simp
  | case2 r s r' s' h ih => rw [ih, Nat.gcd_comm r r', Nat.gcd_rec r' r, Nat.gcd_comm]

/-- If both numbers are multiples of `x` by their coefficients, so is what the algorithm ends
with. -/
theorem euclid_coeff (x : ZMod m.value) (r : ℕ) (s : ℤ) (r' : ℕ) (s' : ℤ)
    (h : (r : ZMod m.value) = s * x) (h' : (r' : ZMod m.value) = s' * x) :
    ((euclid r s r' s').1 : ZMod m.value) = (euclid r s r' s').2 * x := by
  fun_induction euclid r s r' s' with
  | case1 r s s' => exact h
  | case2 r s r' s' _ ih =>
    apply ih h'
    have hdiv : (r : ZMod m.value) = r' * (r / r' : ℕ) + (r % r' : ℕ) := by
      exact_mod_cast congrArg (Nat.cast (R := ZMod m.value)) (Nat.div_add_mod r r').symm
    rw [Int.cast_sub, Int.cast_mul, Int.cast_natCast]
    linear_combination -hdiv + h - (r / r' : ℕ) * h'

/-- Where an inverse is computed, it is one. -/
theorem mul_eq_one_of_inverse {a b : Residue m} (h : a.inverse = .ok b) :
    a.toZMod * b.toZMod = 1 := by
  unfold inverse at h
  split at h
  · simp at h
  have hcoeff := euclid_coeff a.toZMod a.val 1 m.value 0 (by simp [toZMod]) (by simp)
  revert h hcoeff
  rcases euclid a.val 1 m.value 0 with ⟨g, s⟩
  intro h hcoeff
  simp only at h hcoeff
  split at h
  · rename_i hg
    simp only [Except.ok.injEq] at h
    rw [← h, toZMod_ofInt, mul_comm, ← hcoeff, hg, Nat.cast_one]
  · simp at h

/-- Every unit has an inverse that is computed. -/
theorem exists_inverse {a : Residue m} (h : IsUnit a.toZMod) : ∃ b, a.inverse = .ok b := by
  have hgcd : (euclid a.val 1 m.value 0).1 = 1 := by
    rw [fst_euclid]
    exact isUnit_toZMod_iff.mp h
  have hne : a.val ≠ 0 := by
    intro h0
    have ha : a = 0 := ext h0
    rw [ha, toZMod_zero] at h
    exact not_isUnit_zero h
  refine ⟨ofInt m (euclid a.val 1 m.value 0).2, ?_⟩
  unfold inverse
  rw [if_neg hne]
  simp [hgcd]

/-- The inverse is computed exactly where there is one, and it is the only one. -/
theorem inverse_eq_ok_iff {a b : Residue m} : a.inverse = .ok b ↔ a.toZMod * b.toZMod = 1 := by
  constructor
  · exact mul_eq_one_of_inverse
  · intro h
    obtain ⟨c, hc⟩ := exists_inverse (.of_mul_eq_one _ h)
    have hac := mul_eq_one_of_inverse hc
    have hcb : c.toZMod = b.toZMod := left_inv_eq_right_inv (by rw [mul_comm, hac]) h
    rw [hc, toZMod_injective hcb]

/-- What a residue that is not zero and not a unit shares with the modulus is reported. -/
theorem inverse_eq_error {a : Residue m} (h0 : a ≠ 0) (h : ¬ IsUnit a.toZMod) :
    a.inverse = .error (.notInvertible (Nat.gcd a.val m.value)) := by
  have hgcd : (euclid a.val 1 m.value 0).1 = Nat.gcd a.val m.value := fst_euclid _ _ _ _
  have hne : Nat.gcd a.val m.value ≠ 1 := fun h1 => h (isUnit_toZMod_iff.mpr h1)
  have hval : a.val ≠ 0 := fun hval => h0 (ext hval)
  unfold inverse
  rw [if_neg hval]
  simp [hgcd, hne]

/-! ## Many inverses at once -/

/-- The entries of the second list are the inverses of those of the first. -/
def AreInverses (xs ys : List (Residue m)) : Prop :=
  List.Forall₂ (fun x y => x.toZMod * y.toZMod = 1) xs ys

theorem AreInverses.unique {xs ys zs : List (Residue m)} (hy : AreInverses xs ys)
    (hz : AreInverses xs zs) : ys = zs := by
  induction hy generalizing zs with
  | nil => cases hz; rfl
  | cons h _ ih =>
    cases hz with
    | cons h' hzs =>
      have hyz := left_inv_eq_right_inv (by rw [mul_comm, h]) h'
      rw [toZMod_injective hyz, ih hzs]

theorem AreInverses.isUnit {xs ys : List (Residue m)} (h : AreInverses xs ys) :
    ∀ x ∈ xs, IsUnit x.toZMod := by
  induction h with
  | nil => simp
  | cons h _ ih =>
    intro x hx
    rcases List.mem_cons.mp hx with rfl | hx
    · exact .of_mul_eq_one _ h
    · exact ih x hx

theorem AreInverses.length_eq {xs ys : List (Residue m)} (h : AreInverses xs ys) :
    xs.length = ys.length := List.Forall₂.length_eq h

theorem AreInverses.mul_getD {xs ys : List (Residue m)} (h : AreInverses xs ys) {k : ℕ}
    (hk : k < xs.length) : (xs.getD k 0).toZMod * (ys.getD k 0).toZMod = 1 := by
  induction h generalizing k with
  | nil => exact absurd hk (Nat.not_lt_zero k)
  | cons h _ ih =>
    cases k with
    | zero => exact h
    | succ k => exact ih (Nat.lt_of_succ_lt_succ hk)

/-- The inverses that are peeled off belong to the product so far and to the entries. -/
theorem peel_spec {p i : Residue m} {xs is : List (Residue m)} (h : peel p xs = .ok (i, is)) :
    p.toZMod * i.toZMod = 1 ∧ AreInverses xs is := by
  induction xs generalizing p i is with
  | nil =>
    obtain ⟨j, hj, hi⟩ := Except.bind_eq_ok_iff.mp h
    cases hi
    exact ⟨mul_eq_one_of_inverse hj, .nil⟩
  | cons x xs ih =>
    obtain ⟨⟨j, js⟩, hr, hi⟩ := Except.bind_eq_ok_iff.mp h
    cases hi
    obtain ⟨hj, hjs⟩ := ih hr
    rw [toZMod_mul] at hj
    refine ⟨?_, .cons ?_ hjs⟩
    · rw [toZMod_mul, ← hj]
      ring
    · rw [toZMod_mul, ← hj]
      ring

theorem exists_peel {p : Residue m} {xs : List (Residue m)} (hp : IsUnit p.toZMod)
    (hxs : ∀ x ∈ xs, IsUnit x.toZMod) : ∃ r, peel p xs = .ok r := by
  induction xs generalizing p with
  | nil =>
    obtain ⟨b, hb⟩ := exists_inverse hp
    exact ⟨(b, []), by simp [peel, hb]⟩
  | cons x xs ih =>
    have hpx : IsUnit (p * x).toZMod := by
      rw [toZMod_mul]
      exact hp.mul (hxs x List.mem_cons_self)
    obtain ⟨⟨j, js⟩, hr⟩ := ih hpx fun y hy => hxs y (List.mem_cons_of_mem x hy)
    exact ⟨(j * x, j * p :: js), by simp [peel, hr]⟩

/-- What a batch inversion returns are the inverses. -/
theorem areInverses_of_invertAll {xs ys : List (Residue m)} (h : invertAll xs = .ok ys) :
    AreInverses xs ys := by
  unfold invertAll at h
  split at h
  · cases h
  · obtain ⟨r, hr, hy⟩ := Except.bind_eq_ok_iff.mp h
    cases hy
    exact (peel_spec hr).2

/-- A batch of units is inverted. -/
theorem exists_invertAll {xs : List (Residue m)} (h : ∀ x ∈ xs, IsUnit x.toZMod) :
    ∃ ys, invertAll xs = .ok ys := by
  have hzero : xs.findIdx? (· = 0) = none := by
    rw [List.findIdx?_eq_none_iff]
    intro x hx
    have hx0 : x ≠ 0 := by
      rintro rfl
      exact not_isUnit_zero (toZMod_zero (m := m) ▸ h 0 hx)
    simp [hx0]
  obtain ⟨r, hr⟩ := exists_peel (p := 1) (by simp) h
  refine ⟨r.2, ?_⟩
  unfold invertAll invertProduct
  rw [hzero]
  simp [hr]

/-- A batch is inverted exactly where each of its entries can be, and entry by entry. -/
theorem invertAll_eq_ok_iff {xs ys : List (Residue m)} :
    invertAll xs = .ok ys ↔ AreInverses xs ys := by
  constructor
  · exact areInverses_of_invertAll
  · intro h
    obtain ⟨zs, hzs⟩ := exists_invertAll h.isUnit
    rw [hzs, (areInverses_of_invertAll hzs).unique h]

end Residue

end MultisetRecovery

import Mathlib.Data.ZMod.Units
import Mathlib.FieldTheory.Finite.Basic
import Mathlib.GroupTheory.Perm.Cycle.Type
import Mathlib.RingTheory.ZMod.UnitsCyclic

/-!
# Units whose powers are signs

The units modulo `n` whose power `t` is one or minus one form a group. If `n` is composite with all
prime factors above three, `n - 1` is `t` times an even number, and minus one is such a power at
all, then the group has at least four cosets (`four_mul_card_signPowers_le`). Two units tell four
cosets apart. Which they are depends on `n`: the square of a prime divides it, or it is the product
of two primes, or it has three coprime factors.
-/

namespace MultisetRecovery.Primality

/-! ## Cosets -/

theorem four_mul_card_le {G : Type*} [CommGroup G] [Finite G] {H : Subgroup G} {x y : G}
    (hx : x ∉ H) (hy : y ∉ H) (hdiv : x⁻¹ * y ∉ H) (hmul : x * y ∉ H) :
    4 * Nat.card H ≤ Nat.card G := by
  classical
  have : Fintype (G ⧸ H) := Fintype.ofFinite _
  have hx' : (x : G ⧸ H) ≠ 1 := (QuotientGroup.eq_one_iff x).not.mpr hx
  have hy' : (y : G ⧸ H) ≠ 1 := (QuotientGroup.eq_one_iff y).not.mpr hy
  have hdiv' : (x : G ⧸ H) ≠ y := QuotientGroup.eq.not.mpr hdiv
  have hmul' : (x : G ⧸ H) * y ≠ 1 := (QuotientGroup.eq_one_iff (x * y)).not.mpr hmul
  have hcard : ({1, (x : G ⧸ H), (y : G ⧸ H), (x : G ⧸ H) * y} : Finset (G ⧸ H)).card = 4 := by
    simp [hx', hy', hdiv', hx'.symm, hy'.symm, hmul'.symm]
  have hfour : 4 ≤ H.index := by
    rw [Subgroup.index_eq_card, Nat.card_eq_fintype_card, ← hcard]
    exact Finset.card_le_univ _
  calc 4 * Nat.card H = Nat.card H * 4 := Nat.mul_comm _ _
    _ ≤ Nat.card H * H.index := Nat.mul_le_mul_left _ hfour
    _ = Nat.card G := H.card_mul_index

/-! ## Remainders -/

section Remainders

variable {a b n : ℕ}

theorem unitsMap_unitsMap (hab : a ∣ b) (hb : b ∣ n) (z : (ZMod n)ˣ) :
    ZMod.unitsMap hab (ZMod.unitsMap hb z) = ZMod.unitsMap (hab.trans hb) z := by
  rw [← ZMod.unitsMap_comp hab hb]
  rfl

theorem unitsMap_neg_one (ha : a ∣ n) : ZMod.unitsMap ha (-1) = -1 :=
  Units.ext (by simp [ZMod.unitsMap_def])

theorem neg_one_ne_one (ha : 2 < a) : (-1 : (ZMod a)ˣ) ≠ 1 := by
  have : Fact (2 < a) := ⟨ha⟩
  intro h
  exact ZMod.neg_one_ne_one (n := a) (congrArg Units.val h)

theorem chineseRemainder_eq (h : a.Coprime b) (z : ZMod (a * b)) :
    ZMod.chineseRemainder h z = (ZMod.castHom (dvd_mul_right a b) (ZMod a) z,
      ZMod.castHom (dvd_mul_left b a) (ZMod b) z) := by
  let f := (ZMod.castHom (dvd_mul_right a b) (ZMod a)).prod
    (ZMod.castHom (dvd_mul_left b a) (ZMod b))
  exact congrArg (fun g : ZMod (a * b) →+* ZMod a × ZMod b => g z)
    (Subsingleton.elim (ZMod.chineseRemainder h).toRingHom f)

/-- Modulo a product of coprime numbers there is a unit with any two units as remainders. -/
theorem exists_unit (h : a.Coprime b) (hn : n = a * b) (ha : a ∣ n) (hb : b ∣ n) (u : (ZMod a)ˣ)
    (v : (ZMod b)ˣ) :
    ∃ z : (ZMod n)ˣ, ZMod.unitsMap ha z = u ∧ ZMod.unitsMap hb z = v := by
  subst hn
  let e := (Units.mapEquiv (ZMod.chineseRemainder h).toMulEquiv).trans MulEquiv.prodUnits
  obtain ⟨z, hz⟩ := e.surjective (u, v)
  have hcast : ZMod.chineseRemainder h z = ((u : ZMod a), (v : ZMod b)) :=
    congrArg (fun w : (ZMod a)ˣ × (ZMod b)ˣ => ((w.1 : ZMod a), (w.2 : ZMod b))) hz
  rw [chineseRemainder_eq, Prod.mk.injEq] at hcast
  exact ⟨z, Units.ext hcast.1, Units.ext hcast.2⟩

end Remainders

/-! ## Composite numbers -/

theorem composite_cases {n : ℕ} (hn : 1 < n) (hprime : ¬ n.Prime) :
    (∃ p, p.Prime ∧ p * p ∣ n) ∨ (∃ p q, p.Prime ∧ q.Prime ∧ p < q ∧ n = p * q) ∨
      ∃ a b c, 1 < a ∧ 1 < b ∧ 1 < c ∧ a.Coprime b ∧ a.Coprime c ∧ b.Coprime c ∧
        n = a * b * c := by
  by_cases hsquare : ∃ p, p.Prime ∧ p * p ∣ n
  · exact .inl hsquare
  right
  -- No prime of which the square does not divide `n` divides both parts of a product.
  have hcoprime : ∀ p r, p.Prime → p * r ∣ n → p.Coprime r := by
    intro p r hp hdvd
    rw [hp.coprime_iff_not_dvd]
    intro hpr
    exact hsquare ⟨p, hp, (Nat.mul_dvd_mul_left p hpr).trans hdvd⟩
  have hp : n.minFac.Prime := Nat.minFac_prime hn.ne'
  obtain ⟨r, hr⟩ := n.minFac_dvd
  have hrn : r ∣ n := Dvd.intro_left _ hr.symm
  have hr1 : r ≠ 1 := by
    rintro rfl
    rw [mul_one] at hr
    exact hprime (hr ▸ hp)
  have hq : r.minFac.Prime := Nat.minFac_prime hr1
  obtain ⟨c, hc⟩ := r.minFac_dvd
  have hcr : c ∣ r := Dvd.intro_left _ hc.symm
  have hpr : n.minFac.Coprime r := hcoprime _ r hp hr.symm.dvd
  have hqc : r.minFac.Coprime c := hcoprime _ c hq (hc.symm.dvd.trans hrn)
  have hpq : n.minFac.Coprime r.minFac := hpr.coprime_dvd_right r.minFac_dvd
  by_cases hc1 : c = 1
  · left
    have hle : n.minFac ≤ r.minFac := Nat.minFac_le_of_dvd hq.two_le (r.minFac_dvd.trans hrn)
    have hne : n.minFac ≠ r.minFac := (Nat.coprime_primes hp hq).mp hpq
    rw [hc1, mul_one] at hc
    exact ⟨_, _, hp, hq, hle.lt_of_ne hne, by rw [← hc]; exact hr⟩
  · right
    have hc0 : c ≠ 0 := by
      rintro rfl
      rw [hc, mul_zero, mul_zero] at hr
      omega
    refine ⟨_, _, c, hp.one_lt, hq.one_lt, by omega, hpq, hpr.coprime_dvd_right hcr, hqc, ?_⟩
    rw [mul_assoc, ← hc]
    exact hr

/-! ## Signs -/

/-- The units whose power `t` is one or minus one. -/
def signPowers (n t : ℕ) : Subgroup (ZMod n)ˣ where
  carrier := {u | u ^ t = 1 ∨ u ^ t = -1}
  mul_mem' := by
    rintro u v (hu | hu) (hv | hv) <;> simp [mul_pow, hu, hv]
  one_mem' := .inl (one_pow t)
  inv_mem' := by
    rintro u (hu | hu) <;> simp [inv_pow, hu]

section Signs

variable {a b n t : ℕ} {z w : (ZMod n)ˣ}

theorem pow_unitsMap_of_eq_neg_one (hw : w ^ t = -1) (ha : a ∣ n) :
    ZMod.unitsMap ha w ^ t = -1 := by
  rw [← map_pow, hw, unitsMap_neg_one]

/-- The power of a member is the same sign modulo all divisors. -/
theorem not_mem_signPowers (ha : a ∣ n) (hb : b ∣ n) (ha2 : 2 < a) (hb2 : 2 < b)
    (hminus : ZMod.unitsMap ha z ^ t = -1) (hone : ZMod.unitsMap hb z = 1) :
    z ∉ signPowers n t := by
  rintro (h | h)
  · rw [← map_pow, h, map_one] at hminus
    exact neg_one_ne_one ha2 hminus.symm
  · have hminus' := pow_unitsMap_of_eq_neg_one h hb
    rw [hone, one_pow] at hminus'
    exact neg_one_ne_one hb2 hminus'.symm

theorem pow_eq_one_of_mem {k : ℕ} (h : z ∈ signPowers n t) : z ^ (t * (2 * k)) = 1 := by
  rw [pow_mul, pow_mul]
  rcases h with h | h
  · rw [h, one_pow, one_pow]
  · rw [h, neg_one_sq, one_pow]

end Signs

/-! ## Counting -/

section Counting

variable {n t k : ℕ} {w : (ZMod n)ˣ}

/-- Modulo a multiple of the square of a prime, there is a unit that has the prime as its order. -/
theorem four_mul_card_of_square [NeZero n] (hk : n - 1 = t * (2 * k)) {p : ℕ} (hp : p.Prime)
    (hlarge : 3 < p) (hdvd : p * p ∣ n) :
    4 * Nat.card (signPowers n t) ≤ Nat.card (ZMod n)ˣ := by
  have : Fact p.Prime := ⟨hp⟩
  have hpn : p ∣ n := (dvd_mul_right p p).trans hdvd
  have hcard : p ∣ Nat.card (ZMod n)ˣ := by
    rw [Nat.card_eq_fintype_card, ZMod.card_units_eq_totient]
    refine (dvd_mul_right p p.totient).trans ?_
    rw [← Nat.totient_mul_of_prime_of_dvd hp dvd_rfl]
    exact Nat.totient_dvd_of_dvd hdvd
  obtain ⟨g, hg⟩ := exists_prime_orderOf_dvd_card' p hcard
  have hnot : ∀ j, 0 < j → j < p → g ^ j ∉ signPowers n t := by
    intro j hpos hlt hmem
    have hone := pow_eq_one_of_mem (k := k) hmem
    rw [← hk, ← pow_mul, ← orderOf_dvd_iff_pow_eq_one, hg] at hone
    rcases hp.dvd_mul.mp hone with hj | hpred
    · exact hlt.not_ge (Nat.le_of_dvd hpos hj)
    · have hdiff := Nat.dvd_sub hpn hpred
      rw [Nat.sub_sub_self (NeZero.one_le (n := n))] at hdiff
      exact hp.one_lt.ne' (Nat.dvd_one.mp hdiff)
  refine four_mul_card_le (x := g) (y := g ^ 2) ?_ (hnot 2 (by omega) (by omega)) ?_ ?_
  · simpa using hnot 1 (by omega) (by omega)
  · rw [pow_two, inv_mul_cancel_left]
    simpa using hnot 1 (by omega) (by omega)
  · rw [← pow_succ']
    exact hnot 3 (by omega) (by omega)

theorem four_mul_card_of_three [NeZero n] (hw : w ^ t = -1) {a b c : ℕ} (ha : 2 < a) (hb : 2 < b)
    (hc : 2 < c) (hab : a.Coprime b) (hac : a.Coprime c) (hbc : b.Coprime c) (hn : n = a * b * c) :
    4 * Nat.card (signPowers n t) ≤ Nat.card (ZMod n)ˣ := by
  have han : n = a * (b * c) := by rw [hn, mul_assoc]
  have hbn : n = b * (a * c) := by rw [hn, mul_comm a, mul_assoc]
  have hbcn : b * c ∣ n := Dvd.intro_left _ han.symm
  have hacn : a * c ∣ n := Dvd.intro_left _ hbn.symm
  have ha' : a ∣ n := Dvd.intro _ han.symm
  have hb' : b ∣ n := Dvd.intro _ hbn.symm
  have hc' : c ∣ n := (dvd_mul_left c b).trans hbcn
  -- The one unit is minus one modulo `a` only, the other modulo `b` only.
  obtain ⟨x, hxa, hx⟩ := exists_unit (hab.mul_right hac) han ha' hbcn (ZMod.unitsMap ha' w) 1
  obtain ⟨y, hyb, hy⟩ := exists_unit (hab.symm.mul_right hbc) hbn hb' hacn (ZMod.unitsMap hb' w) 1
  have hxc : ZMod.unitsMap hc' x = 1 := by
    rw [← unitsMap_unitsMap (dvd_mul_left c b) hbcn, hx, map_one]
  have hyc : ZMod.unitsMap hc' y = 1 := by
    rw [← unitsMap_unitsMap (dvd_mul_left c a) hacn, hy, map_one]
  have hya : ZMod.unitsMap ha' y = 1 := by
    rw [← unitsMap_unitsMap (dvd_mul_right a c) hacn, hy, map_one]
  have hwa := pow_unitsMap_of_eq_neg_one hw ha'
  have hwb := pow_unitsMap_of_eq_neg_one hw hb'
  refine four_mul_card_le (x := x) (y := y) ?_ ?_ ?_ ?_
  · exact not_mem_signPowers ha' hc' ha hc (by rw [hxa, hwa]) hxc
  · exact not_mem_signPowers hb' hc' hb hc (by rw [hyb, hwb]) hyc
  · refine not_mem_signPowers ha' hc' ha hc ?_ ?_
    · rw [map_mul, map_inv, hxa, hya, mul_one, inv_pow, hwa]
      simp
    · rw [map_mul, map_inv, hxc, hyc, inv_one, one_mul]
  · refine not_mem_signPowers ha' hc' ha hc ?_ ?_
    · rw [map_mul, hxa, hya, mul_one, hwa]
    · rw [map_mul, hxc, hyc, one_mul]

theorem four_mul_card_of_two [NeZero n] (hk : n - 1 = t * (2 * k)) (hw : w ^ t = -1) {p q : ℕ}
    (hp : p.Prime) (hq : q.Prime) (hp2 : 2 < p) (hpq : p < q) (hn : n = p * q) :
    4 * Nat.card (signPowers n t) ≤ Nat.card (ZMod n)ˣ := by
  have : Fact q.Prime := ⟨hq⟩
  have hpn : p ∣ n := Dvd.intro _ hn.symm
  have hqn : q ∣ n := Dvd.intro_left _ hn.symm
  have hcoprime : p.Coprime q := (Nat.coprime_primes hp hq).mpr hpq.ne
  obtain ⟨v, hv⟩ : ∃ v : (ZMod q)ˣ, ∀ u, u ∈ Subgroup.zpowers v := IsCyclic.exists_generator
  have horder : orderOf v = q - 1 := by
    rw [orderOf_eq_card_of_forall_mem_zpowers hv, Nat.card_eq_fintype_card, ZMod.card_units]
  have hnot : ∀ z : (ZMod n)ˣ, ZMod.unitsMap hqn z = v → z ∉ signPowers n t := by
    intro z hz hmem
    have hone := congrArg (ZMod.unitsMap hqn) (pow_eq_one_of_mem (k := k) hmem)
    rw [map_pow, hz, map_one, ← hk, ← orderOf_dvd_iff_pow_eq_one, horder] at hone
    -- Modulo `q - 1` the number `p * q - 1` is `p - 1`.
    have hsplit : n - 1 = p * (q - 1) + (p - 1) := by
      rw [hn, Nat.mul_sub_one]
      have := Nat.le_mul_of_pos_right p hq.pos
      have := hp.pos
      omega
    rw [hsplit, Nat.dvd_add_right (dvd_mul_left _ p)] at hone
    have := Nat.le_of_dvd (by omega) hone
    omega
  obtain ⟨x, hxp, hxq⟩ := exists_unit hcoprime hn hpn hqn (ZMod.unitsMap hpn w) 1
  obtain ⟨y, -, hyq⟩ := exists_unit hcoprime hn hpn hqn 1 v
  have hwp := pow_unitsMap_of_eq_neg_one hw hpn
  refine four_mul_card_le (x := x) (y := y) ?_ (hnot y hyq) (hnot _ ?_) (hnot _ ?_)
  · exact not_mem_signPowers hpn hqn hp2 (hp2.trans hpq) (by rw [hxp, hwp]) hxq
  · rw [map_mul, map_inv, hxq, hyq, inv_one, one_mul]
  · rw [map_mul, hxq, hyq, one_mul]

/-- At most a quarter of the units have a sign as their power. -/
theorem four_mul_card_signPowers_le (hn : 1 < n) (hprime : ¬ n.Prime)
    (hfactors : ∀ q, q.Prime → q ∣ n → 3 < q) (hk : n - 1 = t * (2 * k)) (hw : w ^ t = -1) :
    4 * Nat.card (signPowers n t) ≤ n.totient := by
  have : NeZero n := ⟨by omega⟩
  have hlarge : ∀ a, 1 < a → a ∣ n → 2 < a := by
    intro a ha hdvd
    have hthree := hfactors _ (Nat.minFac_prime ha.ne') (a.minFac_dvd.trans hdvd)
    have hle := Nat.minFac_le (n := a) (by omega)
    omega
  rw [← ZMod.card_units_eq_totient, ← Nat.card_eq_fintype_card]
  rcases composite_cases hn hprime with
    ⟨p, hp, hdvd⟩ | ⟨p, q, hp, hq, hpq, hmul⟩ | ⟨a, b, c, ha, hb, hc, hab, hac, hbc, hmul⟩
  · exact four_mul_card_of_square hk hp (hfactors p hp ((dvd_mul_right p p).trans hdvd)) hdvd
  · exact four_mul_card_of_two hk hw hp hq (hlarge p hp.one_lt (Dvd.intro _ hmul.symm)) hpq hmul
  · have hdvd : a * b ∣ n := Dvd.intro _ hmul.symm
    exact four_mul_card_of_three hw (hlarge a ha ((dvd_mul_right a b).trans hdvd))
      (hlarge b hb ((dvd_mul_left b a).trans hdvd)) (hlarge c hc (Dvd.intro_left _ hmul.symm))
      hab hac hbc hmul

end Counting

end MultisetRecovery.Primality

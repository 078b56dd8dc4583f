import MultisetRecovery.Proofs.Primality
import MultisetRecovery.Proofs.UnitGroup

/-!
# Few bases pass for a composite number

Let `j` be the last number of squarings within the test that takes any unit to minus one. Then the
power `2 ^ j * d` of every base that passes is one or minus one, so these bases lie in the group of
such units, which has at most a quarter of all units. Each round draws a base of its own, so all
rounds pass for at most that power of a quarter of the draws (`composite_rarely_passes`).
-/

namespace MultisetRecovery

variable {m : Modulus}

namespace Primality

/-! ## Bases that pass -/

/-- Of the numbers of squarings up to a bound, one is the last that takes a unit to minus one. -/
theorem exists_last (n bound : ℕ) :
    ∃ j ≤ bound, (∃ u : (ZMod n)ˣ, u ^ 2 ^ j = -1) ∧
      ∀ i ≤ bound, (∃ u : (ZMod n)ˣ, u ^ 2 ^ i = -1) → i ≤ j := by
  classical
  let reached (i : ℕ) : Prop := ∃ u : (ZMod n)ˣ, u ^ 2 ^ i = -1
  have hzero : reached 0 := ⟨-1, by rw [pow_zero, pow_one]⟩
  exact ⟨Nat.findGreatest reached bound, Nat.findGreatest_le bound,
    Nat.findGreatest_spec (Nat.zero_le bound) hzero, fun i hi h => Nat.le_findGreatest hi h⟩

theorem mem_signPowers_of_pow_eq_one {n d : ℕ} {u : (ZMod n)ˣ} (h : u ^ d = 1) (j : ℕ) :
    u ∈ signPowers n (2 ^ j * d) := by
  left
  rw [mul_comm, pow_mul, h, one_pow]

/-- Once a squaring has taken the power of a unit to minus one, any more take it to one. -/
theorem mem_signPowers_of_pow_eq_neg_one {n d i j : ℕ} {u : (ZMod n)ˣ} (h : (u ^ d) ^ 2 ^ i = -1)
    (hij : i ≤ j) : u ∈ signPowers n (2 ^ j * d) := by
  show u ^ (2 ^ j * d) = 1 ∨ u ^ (2 ^ j * d) = -1
  rw [mul_comm, pow_mul]
  rcases hij.eq_or_lt with rfl | hlt
  · exact .inr h
  · left
    have hsquares : 2 ^ j = 2 ^ i * 2 ^ (j - i) := by rw [← pow_add, Nat.add_sub_cancel' hij]
    have heven : Even (2 ^ (j - i)) := even_two.pow_of_ne_zero (by omega)
    rw [hsquares, pow_mul, h, heven.neg_one_pow]

/-- The powers of all bases that pass are signs, for an exponent that does not depend on the
base. -/
theorem exists_signPowers (hm : 3 < m.value) (hodd : m.value % 2 = 1) :
    ∃ t k, m.value - 1 = t * (2 * k) ∧ (∃ w : (ZMod m.value)ˣ, w ^ t = -1) ∧
      ∀ a : Residue m, passes a = true →
        ∃ u ∈ signPowers m.value t, (u : ZMod m.value) = a.toZMod := by
  obtain ⟨hsplit, hd⟩ := oddPart_spec (n := m.value - 1) (by omega)
  have hpasses := fun a : Residue m => (passes_iff (a := a)).mp
  generalize (oddPart (m.value - 1)).1 = s at hsplit hpasses
  generalize (oddPart (m.value - 1)).2 = d at hsplit hd hpasses
  have hd0 : d ≠ 0 := by omega
  have hs : s ≠ 0 := by
    rintro rfl
    rw [pow_zero, one_mul] at hsplit
    omega
  obtain ⟨j, hj, ⟨w, hw⟩, hlast⟩ := exists_last m.value (s - 1)
  refine ⟨2 ^ j * d, 2 ^ (s - 1 - j), ?_, ⟨w, ?_⟩, fun a ha => ?_⟩
  · have hexponent : s = j + (1 + (s - 1 - j)) := by omega
    calc m.value - 1 = 2 ^ (j + (1 + (s - 1 - j))) * d := by rw [← hexponent, hsplit]
      _ = 2 ^ j * d * (2 * 2 ^ (s - 1 - j)) := by rw [pow_add, pow_add, pow_one]; ring
  · rw [pow_mul, hw, (Nat.odd_iff.mpr hd).neg_one_pow]
  rcases hpasses a ha with hone | ⟨i, hi, hminus⟩
  · obtain ⟨u, hu⟩ := (isUnit_pow_iff hd0).mp (hone ▸ isUnit_one)
    have hone' : u ^ d = 1 := Units.ext (by rw [Units.val_pow_eq_pow_val, hu, hone, Units.val_one])
    exact ⟨u, mem_signPowers_of_pow_eq_one hone' j, hu⟩
  · rw [← pow_mul] at hminus
    have hexp : d * 2 ^ i ≠ 0 := mul_ne_zero hd0 (by positivity)
    obtain ⟨u, hu⟩ := (isUnit_pow_iff hexp).mp (hminus ▸ isUnit_one.neg)
    have hminus' : (u ^ d) ^ 2 ^ i = -1 := by
      rw [← pow_mul]
      exact Units.ext (by rw [Units.val_pow_eq_pow_val, hu, hminus, Units.val_neg, Units.val_one])
    exact ⟨u, mem_signPowers_of_pow_eq_neg_one hminus' (hlast i hi ⟨_, hminus'⟩), hu⟩

theorem factor_gt_of_not_dvd (hsmall : ∀ q ∈ smallPrimes, ¬ q ∣ m.value) {q : ℕ} (hq : q.Prime)
    (hdvd : q ∣ m.value) : 3 < q := by
  by_contra hle
  exact hsmall q (mem_smallPrimes_iff.mpr ⟨hq, by omega⟩) hdvd

/-- The bases that a round can draw. -/
def bases (m : Modulus) : Finset ℕ := Finset.Icc 2 (m.value - 2)

/-- The bases that pass. -/
def passingBases (m : Modulus) : Finset ℕ :=
  (bases m).filter fun a => passes (Residue.ofNat m a)

theorem mem_bases {a : ℕ} : a ∈ bases m ↔ 2 ≤ a ∧ a ≤ m.value - 2 := Finset.mem_Icc

theorem mem_passingBases {a : ℕ} :
    a ∈ passingBases m ↔ a ∈ bases m ∧ passes (Residue.ofNat m a) = true := Finset.mem_filter

theorem four_mul_card_passingBases_le (hcomposite : ¬ m.value.Prime)
    (hsmall : ∀ q ∈ smallPrimes, ¬ q ∣ m.value) :
    4 * (passingBases m).card ≤ m.value - 3 := by
  classical
  have hm := three_lt_of_not_dvd hsmall
  have : NeZero m.value := ⟨by omega⟩
  have hodd : m.value % 2 = 1 := by
    have := hsmall 2 (by decide)
    omega
  obtain ⟨t, k, hk, ⟨w, hw⟩, hunits⟩ := exists_signPowers hm hodd
  have hquarter := four_mul_card_signPowers_le (by omega) hcomposite
    (fun q => factor_gt_of_not_dvd hsmall) hk hw
  -- One passes too, and is no base that a round can draw.
  let members := Finset.univ.filter (· ∈ signPowers m.value t)
  have hsubset : insert 1 (passingBases m) ⊆ members.image fun u => u.val.val := by
    intro a ha
    rw [Finset.mem_image]
    rcases Finset.mem_insert.mp ha with rfl | ha
    · have : Fact (1 < m.value) := ⟨by omega⟩
      exact ⟨1, by simp [members, one_mem], ZMod.val_one m.value⟩
    · rw [mem_passingBases, mem_bases] at ha
      obtain ⟨hrange, hpass⟩ := ha
      obtain ⟨u, hu, heq⟩ := hunits _ hpass
      refine ⟨u, by simp [members, hu], ?_⟩
      rw [heq, Residue.toZMod_ofNat, ZMod.val_natCast_of_lt (by omega)]
  have hone : 1 ∉ passingBases m := by simp [mem_passingBases, mem_bases]
  have hcard : (passingBases m).card + 1 ≤ Nat.card (signPowers m.value t) := by
    calc (passingBases m).card + 1 = (insert 1 (passingBases m)).card :=
          (Finset.card_insert_of_notMem hone).symm
      _ ≤ members.card := (Finset.card_le_card hsubset).trans Finset.card_image_le
      _ = Nat.card (signPowers m.value t) := by
          rw [Nat.card_eq_fintype_card, Fintype.card_subtype]
  have htotient := Nat.totient_lt m.value (by omega)
  omega

/-! ## Rounds -/

theorem between_tape {lo hi v : ℕ} (h : v < hi - lo) (entries rest : List ℕ) (draws : ℕ) :
    Sampler.between lo hi (⟨⟨entries, v :: rest⟩, draws⟩ : Sampler Tape) =
      (.ok (lo + v), ⟨⟨entries, rest⟩, draws + 1⟩) := by
  rw [Sampler.between, if_neg (by omega)]
  show (Except.ok (lo + v % (hi - lo)), _) = _
  rw [Nat.mod_eq_of_lt h]

/-- The tape that makes the rounds draw these bases, in order. -/
def baseTape (as : List ℕ) : Tape := Tape.ofList (as.map (· - 2))

theorem allPass_tape (hm : 3 < m.value) (entries : List ℕ) {as : List ℕ}
    (has : ∀ a ∈ as, a ∈ bases m) (draws : ℕ) :
    (allPass m as.length (⟨⟨entries, as.map (· - 2)⟩, draws⟩ : Sampler Tape)).1 =
      .ok (decide (∀ a ∈ as, a ∈ passingBases m)) := by
  induction as generalizing draws with
  | nil => simp [allPass]
  | cons a as ih =>
    rw [List.forall_mem_cons] at has
    obtain ⟨ha, has⟩ := has
    obtain ⟨hlo, hhi⟩ := mem_bases.mp ha
    have hlt : a - 2 < m.value - 1 - 2 := by omega
    have hdraw := between_tape hlt entries (as.map (· - 2)) draws
    rw [Nat.add_sub_cancel' hlo] at hdraw
    rw [List.length_cons, List.map_cons, allPass, hdraw]
    by_cases hpass : passes (Residue.ofNat m a) = true
    · have hmem : a ∈ passingBases m := mem_passingBases.mpr ⟨ha, hpass⟩
      simp only [hpass, if_true, ih has, List.forall_mem_cons, hmem, true_and]
    · have hmem : a ∉ passingBases m := fun h => hpass (mem_passingBases.mp h).2
      simp [hpass, hmem]

end Primality

theorem isProbablePrime_of_not_dvd {σ : Type} [Source σ]
    (hsmall : ∀ q ∈ smallPrimes, ¬ q ∣ m.value) (rounds : ℕ) (s : Sampler σ) :
    isProbablePrime m.value rounds s = Primality.allPass m rounds s := by
  rcases isProbablePrime_cases m.value rounds s with
    ⟨hlt, -⟩ | ⟨q, hq, -, hdvd, -⟩ | ⟨m', hm', -, hrun⟩
  · have := m.two_le
    omega
  · exact absurd hdvd (hsmall q hq)
  · obtain ⟨n, hn⟩ := m
    obtain ⟨n', hn'⟩ := m'
    obtain rfl : n' = n := by exact_mod_cast hm'
    exact hrun

open Primality

/-- For a composite number without a small factor, at most a quarter of the bases that a round can
draw let it go on to the next. So of all ways to draw a base for each of some rounds, at most that
power of a quarter has the number taken for a prime. -/
theorem composite_rarely_passes (m : Modulus) (hcomposite : ¬ m.value.Prime)
    (hsmall : ∀ q ∈ smallPrimes, ¬ q ∣ m.value) :
    (bases m).card = m.value - 3 ∧ 4 * (passingBases m).card ≤ m.value - 3 ∧
    (∀ (σ : Type) [Source σ] (rounds : ℕ) (s : Sampler σ),
      isProbablePrime m.value rounds s = allPass m rounds s ∧
      ∃ a ∈ bases m, ∃ t, t.draws = s.draws + 1 ∧ allPass m (rounds + 1) s =
        if a ∈ passingBases m then allPass m rounds t else (.ok false, t)) ∧
    ∀ rounds : ℕ,
      let draws := Fintype.piFinset fun _ : Fin rounds => bases m
      draws.card = (m.value - 3) ^ rounds ∧
      4 ^ rounds * (draws.filter fun as => (isProbablePrime m.value rounds
        (.fresh (baseTape (List.ofFn as)))).1 = .ok true).card ≤ draws.card := by
  have hm := three_lt_of_not_dvd hsmall
  have hcard : (bases m).card = m.value - 3 := by
    rw [bases, Nat.card_Icc]
    omega
  have hquarter := four_mul_card_passingBases_le hcomposite hsmall
  refine ⟨hcard, hquarter, fun σ _ rounds s => ⟨isProbablePrime_of_not_dvd hsmall rounds s, ?_⟩,
    fun rounds => ?_⟩
  · obtain ⟨a, t, hlo, hhi, hdraws, hround⟩ := exists_round hm rounds s
    have ha : a ∈ bases m := mem_bases.mpr (by omega)
    refine ⟨a, ha, t, hdraws, ?_⟩
    rw [hround]
    simp only [mem_passingBases, ha, true_and]
  · intro draws
    have hdraws : draws.card = (m.value - 3) ^ rounds := by
      rw [Fintype.card_piFinset_const, hcard]
    have haccepted : (draws.filter fun as => (isProbablePrime m.value rounds
        (.fresh (baseTape (List.ofFn as)))).1 = .ok true) ⊆
        Fintype.piFinset fun _ : Fin rounds => passingBases m := by
      intro as has
      obtain ⟨hmem, htrue⟩ := Finset.mem_filter.mp has
      have hbases : ∀ a ∈ List.ofFn as, a ∈ bases m :=
        List.forall_mem_ofFn_iff.mpr (Fintype.mem_piFinset.mp hmem)
      have hrun := allPass_tape hm ((List.ofFn as).map (· - 2)) hbases 0
      rw [List.length_ofFn] at hrun
      rw [isProbablePrime_of_not_dvd hsmall] at htrue
      have hall := of_decide_eq_true (Except.ok.inj (hrun.symm.trans htrue))
      exact Fintype.mem_piFinset.mpr (List.forall_mem_ofFn_iff.mp hall)
    refine ⟨hdraws, ?_⟩
    calc _ ≤ 4 ^ rounds * (Fintype.piFinset fun _ : Fin rounds => passingBases m).card :=
          Nat.mul_le_mul_left _ (Finset.card_le_card haccepted)
      _ = (4 * (passingBases m).card) ^ rounds := by rw [Fintype.card_piFinset_const, mul_pow]
      _ ≤ (m.value - 3) ^ rounds := Nat.pow_le_pow_left hquarter rounds
      _ = draws.card := hdraws.symm

/-- The product of 211, 421 and 631 less one is a multiple of 210, 420 and 630, so that power of
every unit is one. -/
theorem composite_rarely_passes_carmichael :
    let m : Modulus := ⟨56052361, by decide⟩
    ¬ Nat.Prime 56052361 ∧ (∀ q ∈ smallPrimes, ¬ q ∣ 56052361) ∧
      4 * (passingBases m).card ≤ 56052358 ∧
      4 ^ 2 * ((Fintype.piFinset fun _ : Fin 2 => bases m).filter fun as =>
        (isProbablePrime 56052361 2 (.fresh (baseTape (List.ofFn as)))).1 = .ok true).card ≤
          56052358 ^ 2 := by
  intro m
  have hcomposite : ¬ Nat.Prime 56052361 := by norm_num
  have hsmall : ∀ q ∈ smallPrimes, ¬ q ∣ 56052361 := by decide
  obtain ⟨-, hquarter, -, hrounds⟩ := composite_rarely_passes m hcomposite hsmall
  obtain ⟨hcard, hle⟩ := hrounds 2
  exact ⟨hcomposite, hsmall, hquarter, hle.trans hcard.le⟩

end MultisetRecovery

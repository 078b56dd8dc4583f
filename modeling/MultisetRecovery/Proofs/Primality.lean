import Mathlib.FieldTheory.Finite.Basic
import Mathlib.Tactic.NormNum.Prime
import MultisetRecovery.Proofs.Residue
import MultisetRecovery.Random.Primality
import MultisetRecovery.Random.Tape

/-!
# No prime fails the Miller–Rabin test

Modulo a prime `p = 2 ^ s * d + 1` the power `2 ^ s * d` of every non-zero base is one, and one has
no square roots but itself and minus one. So the successive squares of the power `d` either begin
with one, or come to minus one before the last of them: every base passes, whatever the source
gives.
-/

namespace MultisetRecovery

variable {m : Modulus} {σ : Type} [Source σ]

namespace Primality

/-! ## One base -/

/-- A positive number is its odd part times a power of two. -/
theorem oddPart_spec {n : ℕ} (hn : 0 < n) :
    n = 2 ^ (oddPart n).1 * (oddPart n).2 ∧ (oddPart n).2 % 2 = 1 := by
  fun_induction oddPart n with
  | case1 n h s d hrest ih =>
    rw [hrest] at ih
    obtain ⟨hhalf, hodd⟩ := ih (by omega)
    refine ⟨?_, hodd⟩
    simp only at hhalf ⊢
    rw [pow_succ, mul_right_comm, ← hhalf]
    omega
  | case2 n h =>
    refine ⟨(one_mul n).symm, ?_⟩
    simp only
    omega

theorem toZMod_eq_neg_one_iff {x : Residue m} : x.toZMod = -1 ↔ x = -1 := by
  rw [← Residue.toZMod_inj, Residue.toZMod_neg, Residue.toZMod_one]

theorem reachesMinusOne_iff {k : ℕ} {x : Residue m} :
    reachesMinusOne k x = true ↔ ∃ i < k, x.toZMod ^ 2 ^ (i + 1) = -1 := by
  induction k generalizing x with
  | zero => simp [reachesMinusOne]
  | succ k ih =>
    have hsquare : ∀ i, x.toZMod ^ 2 ^ (i + 1) = (x * x).toZMod ^ 2 ^ i := by
      intro i
      rw [Residue.toZMod_mul, ← pow_two, ← pow_mul, ← pow_succ']
    rw [Nat.exists_lt_succ_left, zero_add, hsquare 0, pow_zero, pow_one, toZMod_eq_neg_one_iff]
    simp only [hsquare (_ + 1), ← ih]
    rw [reachesMinusOne]
    by_cases hx : x * x = -1
    · simp [hx]
    · simp [hx]

/-- A base passes exactly if its power `d` is one, or one of the squares that are looked at is minus
one. -/
theorem passes_iff {a : Residue m} :
    passes a = true ↔ a.toZMod ^ (oddPart (m.value - 1)).2 = 1 ∨
      ∃ i ≤ (oddPart (m.value - 1)).1 - 1,
        (a.toZMod ^ (oddPart (m.value - 1)).2) ^ 2 ^ i = -1 := by
  rw [passes]
  rcases oddPart (m.value - 1) with ⟨s, d⟩
  simp only [Bool.or_eq_true, decide_eq_true_iff, reachesMinusOne_iff, or_assoc, ← Nat.lt_succ_iff]
  rw [← Residue.toZMod_pow a d, Nat.succ_eq_add_one, Nat.exists_lt_succ_left, pow_zero, pow_one,
    toZMod_eq_neg_one_iff, Residue.toZMod_eq_one_iff]

/-! ## Prime moduli -/

/-- One has no square roots but itself and minus one, so a number that successive squares take to
one is one, or is taken to minus one before. -/
theorem eq_one_or_exists_eq_neg_one {R : Type} [CommRing R] [NoZeroDivisors R] {y : R} {s : ℕ}
    (h : y ^ 2 ^ s = 1) : y = 1 ∨ ∃ i < s, y ^ 2 ^ i = -1 := by
  induction s with
  | zero => exact .inl (by rwa [pow_zero, pow_one] at h)
  | succ s ih =>
    rw [pow_succ, pow_mul, pow_two, mul_self_eq_one_iff] at h
    rcases h with hone | hminus
    · rcases ih hone with hy | ⟨i, hi, hy⟩
      · exact .inl hy
      · exact .inr ⟨i, hi.trans (Nat.lt_succ_self s), hy⟩
    · exact .inr ⟨s, Nat.lt_succ_self s, hminus⟩

theorem passes_of_prime (hm : m.value.Prime) {a : Residue m} (ha : a ≠ 0) : passes a = true := by
  have : Fact m.value.Prime := ⟨hm⟩
  have hpos : 0 < m.value - 1 := Nat.sub_pos_of_lt m.one_lt_value
  obtain ⟨hsplit, -⟩ := oddPart_spec hpos
  have hfermat : a.toZMod ^ (m.value - 1) = 1 :=
    ZMod.pow_card_sub_one_eq_one (Residue.toZMod_eq_zero_iff.not.mpr ha)
  rw [hsplit, mul_comm, pow_mul] at hfermat
  rw [passes_iff]
  refine (eq_one_or_exists_eq_neg_one hfermat).imp id ?_
  rintro ⟨i, hi, hminus⟩
  exact ⟨i, Nat.le_sub_one_of_lt hi, hminus⟩

end Primality

/-! ## Draws -/

theorem Sampler.exists_between {lo hi : ℕ} (h : lo < hi) (s : Sampler σ) :
    ∃ a t, s.between lo hi = (.ok a, t) ∧ lo ≤ a ∧ a < hi ∧ t.draws = s.draws + 1 := by
  have hlt := below_lt (Nat.sub_pos_of_lt h) s
  refine ⟨lo + (s.below (hi - lo)).1, (s.below (hi - lo)).2, ?_, by omega, by omega,
    draws_below _ s⟩
  rw [between, if_neg (not_le.mpr h)]

namespace Primality

/-- A round draws one base between two and the modulus less two, and goes on if that passes. -/
theorem exists_round (hm : 3 < m.value) (rounds : ℕ) (s : Sampler σ) :
    ∃ a t, 2 ≤ a ∧ a < m.value - 1 ∧ t.draws = s.draws + 1 ∧
      allPass m (rounds + 1) s =
        if passes (Residue.ofNat m a) then allPass m rounds t else (.ok false, t) := by
  have hrange : 2 < m.value - 1 := by omega
  obtain ⟨a, t, hdraw, hlo, hhi, hdraws⟩ := s.exists_between hrange
  refine ⟨a, t, hlo, hhi, hdraws, ?_⟩
  rw [allPass, hdraw]

theorem exists_allPass (hm : 3 < m.value) (rounds : ℕ) (s : Sampler σ) :
    ∃ b t, allPass m rounds s = (.ok b, t) := by
  induction rounds generalizing s with
  | zero => exact ⟨true, s, rfl⟩
  | succ rounds ih =>
    obtain ⟨a, t, -, -, -, hround⟩ := exists_round hm rounds s
    rw [hround]
    split
    · exact ih t
    · exact ⟨false, t, rfl⟩

/-- Over a prime modulus no round is the last before all are done. -/
theorem exists_allPass_of_prime (hprime : m.value.Prime) (hm : 3 < m.value) (rounds : ℕ)
    (s : Sampler σ) :
    ∃ t, allPass m rounds s = (.ok true, t) ∧ t.draws = s.draws + rounds := by
  induction rounds generalizing s with
  | zero => exact ⟨s, rfl, rfl⟩
  | succ rounds ih =>
    obtain ⟨a, t, hlo, hhi, hdraws, hround⟩ := exists_round hm rounds s
    have ha : Residue.ofNat m a ≠ 0 := by
      rw [Ne, ← Residue.val_inj, Residue.val_ofNat, Nat.mod_eq_of_lt (by omega), Residue.val_zero]
      omega
    obtain ⟨u, hrest, hu⟩ := ih t
    refine ⟨u, ?_, by omega⟩
    rw [hround, if_pos (passes_of_prime hprime ha), hrest]

end Primality

/-! ## Candidates -/

theorem mem_smallPrimes_iff {q : ℕ} : q ∈ smallPrimes ↔ q.Prime ∧ q ≤ 37 := by
  have hall : ∀ q : Fin 38, q.val ∈ smallPrimes ↔ q.val.Prime := by decide +kernel
  constructor
  · intro h
    have hle : ∀ q ∈ smallPrimes, q ≤ 37 := by decide
    exact ⟨(hall ⟨q, Nat.lt_succ_of_le (hle q h)⟩).mp h, hle q h⟩
  · rintro ⟨hprime, hle⟩
    exact (hall ⟨q, Nat.lt_succ_of_le hle⟩).mpr hprime

/-- A candidate is below two, or a small prime divides it, or random bases decide. -/
theorem isProbablePrime_cases (candidate rounds : ℤ) (s : Sampler σ) :
    candidate < 2 ∧ isProbablePrime candidate rounds s = (.ok false, s) ∨
    (∃ q ∈ smallPrimes, 2 ≤ candidate ∧ q ∣ candidate.toNat ∧
      isProbablePrime candidate rounds s = (.ok (decide (candidate.toNat = q)), s)) ∨
    ∃ m : Modulus, m.value = candidate ∧ (∀ q ∈ smallPrimes, ¬ q ∣ m.value) ∧
      isProbablePrime candidate rounds s = Primality.allPass m rounds.toNat s := by
  unfold isProbablePrime
  split
  · rename_i htwo
    cases hfind : smallPrimes.find? (candidate.toNat % · = 0) with
    | some q =>
      have hdvd : candidate.toNat % q = 0 := by simpa using List.find?_some hfind
      exact .inr (.inl ⟨q, List.mem_of_find?_eq_some hfind, by omega, Nat.dvd_of_mod_eq_zero hdvd,
        rfl⟩)
    | none =>
      have hnone := List.find?_eq_none.mp hfind
      refine .inr (.inr ⟨⟨candidate.toNat, htwo⟩, Int.toNat_of_nonneg (by omega), ?_, rfl⟩)
      intro q hq hdvd
      exact hnone q hq (by simpa using Nat.mod_eq_zero_of_dvd hdvd)
  · rename_i htwo
    exact .inl ⟨by omega, rfl⟩

theorem three_lt_of_not_dvd (h : ∀ q ∈ smallPrimes, ¬ q ∣ m.value) : 3 < m.value := by
  have htwo := m.two_le
  have h2 : m.value ≠ 2 := fun heq => h 2 (by decide) (by rw [heq])
  have h3 : m.value ≠ 3 := fun heq => h 3 (by decide) (by rw [heq])
  omega

theorem exists_isProbablePrime (candidate rounds : ℤ) (s : Sampler σ) :
    ∃ b t, isProbablePrime candidate rounds s = (.ok b, t) := by
  rcases isProbablePrime_cases candidate rounds s with
    ⟨-, hrun⟩ | ⟨q, -, -, -, hrun⟩ | ⟨m, -, hnone, hrun⟩
  · exact ⟨_, _, hrun⟩
  · exact ⟨_, _, hrun⟩
  · rw [hrun]
    exact Primality.exists_allPass (three_lt_of_not_dvd hnone) _ s

/-- A small prime is found among the small primes. For a larger one all rounds are made. -/
theorem exists_isProbablePrime_of_prime {p : ℕ} (hp : p.Prime) (rounds : ℤ) (s : Sampler σ) :
    ∃ t, isProbablePrime p rounds s = (.ok true, t) ∧
      (p ≤ 37 → t = s) ∧ (37 < p → (t.draws : ℤ) = s.draws + max rounds 0) := by
  rcases isProbablePrime_cases p rounds s with
    ⟨hlt, -⟩ | ⟨q, hq, -, hdvd, hrun⟩ | ⟨m, hm, hnone, hrun⟩
  · have htwo := hp.two_le
    omega
  · obtain ⟨hprime, hle⟩ := mem_smallPrimes_iff.mp hq
    rw [Int.toNat_natCast] at hdvd hrun
    have heq : p = q := ((Nat.prime_dvd_prime_iff_eq hprime hp).mp hdvd).symm
    refine ⟨s, by rw [hrun, decide_eq_true heq], fun _ => rfl, fun hlarge => ?_⟩
    omega
  · have hvalue : m.value = p := by exact_mod_cast hm
    have hlarge : 37 < p := by
      by_contra hsmall
      refine hnone p (mem_smallPrimes_iff.mpr ⟨hp, not_lt.mp hsmall⟩) ?_
      rw [hvalue]
    obtain ⟨t, hpass, hdraws⟩ := Primality.exists_allPass_of_prime (hvalue ▸ hp)
      (three_lt_of_not_dvd hnone) rounds.toNat s
    refine ⟨t, hrun.trans hpass, fun hsmall => ?_, fun _ => ?_⟩
    · omega
    · omega

/-- No prime is refused, whatever the source gives and however many rounds are made, and each round
for a prime that is not small draws once. Every candidate gets an answer, and what is refused is
below two or a product. -/
theorem isProbablePrime_refuses_no_prime {σ : Type} [Source σ] (rounds : ℤ) (s : Sampler σ) :
    (∀ p : ℕ, p.Prime → ∃ t, isProbablePrime p rounds s = (.ok true, t) ∧
      (p ≤ 37 → t = s) ∧ (37 < p → (t.draws : ℤ) = s.draws + max rounds 0)) ∧
    ∀ candidate : ℤ, ∃ b t, isProbablePrime candidate rounds s = (.ok b, t) ∧
      (b = false → candidate < 2 ∨ ∃ c d : ℕ, 1 < c ∧ 1 < d ∧ candidate = c * d) := by
  refine ⟨fun p hp => exists_isProbablePrime_of_prime hp rounds s, fun candidate => ?_⟩
  obtain ⟨b, t, hrun⟩ := exists_isProbablePrime candidate rounds s
  refine ⟨b, t, hrun, ?_⟩
  rintro rfl
  by_cases hlt : candidate < 2
  · exact .inl hlt
  right
  have hvalue : (candidate.toNat : ℤ) = candidate := Int.toNat_of_nonneg (by omega)
  have hnot : ¬ candidate.toNat.Prime := by
    intro hp
    obtain ⟨t', hrun', -⟩ := exists_isProbablePrime_of_prime hp rounds s
    rw [hvalue] at hrun'
    cases hrun.symm.trans hrun'
  obtain ⟨c, ⟨d, hmul⟩, hc, hsmaller⟩ := Nat.exists_dvd_of_not_prime2 (by omega) hnot
  have hd : 1 < d := by
    by_contra hone
    have hle := Nat.mul_le_mul_left c (not_lt.mp hone)
    omega
  exact ⟨c, d, hc, hd, by rw [← hvalue, hmul, Nat.cast_mul]⟩

/-- Three bases pass for ninety-seven, which is `2 ^ 5 * 3 + 1`, and one is enough to refuse the
product of forty-one and forty-three. -/
theorem isProbablePrime_refuses_no_prime_ninetySeven :
    let s := Sampler.fresh (Tape.ofList [3, 20, 93])
    Nat.Prime 97 ∧ (∃ t, isProbablePrime 97 3 s = (.ok true, t) ∧ t.draws = 3) ∧
      (isProbablePrime 1763 3 s).1 = .ok false ∧
      ∃ c d : ℕ, 1 < c ∧ 1 < d ∧ (1763 : ℤ) = c * d := by
  intro s
  have hprime : Nat.Prime 97 := by norm_num
  have hrefused : (isProbablePrime 1763 3 s).1 = .ok false := by decide +kernel
  obtain ⟨haccepts, hanswers⟩ := isProbablePrime_refuses_no_prime 3 s
  obtain ⟨t, hrun, -, hdraws⟩ := haccepts 97 hprime
  obtain ⟨b, t', hrun', hfactors⟩ := hanswers 1763
  rw [hrun'] at hrefused
  refine ⟨hprime, ⟨t, hrun, ?_⟩, by rw [hrun', hrefused], ?_⟩
  · have hthree := hdraws (by decide)
    exact_mod_cast hthree
  · exact (hfactors (Except.ok.inj hrefused)).resolve_left (by decide)

end MultisetRecovery

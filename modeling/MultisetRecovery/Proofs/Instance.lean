import MultisetRecovery.Proofs.Breakdown
import MultisetRecovery.Proofs.InstanceText

/-!
# Random instances can be recovered

Whatever a source gives, an instance that is drawn is what it should be: its modulus has the number
of bits that was asked for, and its sums are those of its messages. The written form poses the
problem of these sums. If the modulus is a prime above the number of messages, then the recovery of
that problem lists them, unless the shifts for a split are used up.
-/

namespace MultisetRecovery

variable {σ : Type} [Source σ]

/-! ## Draws -/

theorem Sampler.mem_of_choose {α : Type} {as : List α} {a : α} {s s' : Sampler σ}
    (h : s.choose as = (.ok a, s')) : a ∈ as := by
  unfold choose at h
  split at h
  · cases h
  · rw [Prod.mk.injEq] at h
    obtain ⟨hchoice, -⟩ := h
    split at hchoice
    · rename_i b hb
      cases hchoice
      exact List.mem_of_getElem? hb
    · cases hchoice

namespace Primality

theorem candidate_bounds {bits v : ℕ} (hbits : 2 ≤ bits) (hv : v < 2 ^ bits) :
    2 ^ (bits - 1) ≤ v ||| 1 <<< (bits - 1) ||| 1 ∧ v ||| 1 <<< (bits - 1) ||| 1 < 2 ^ bits := by
  rw [Nat.one_shiftLeft]
  have htop : 2 ^ (bits - 1) < 2 ^ bits := Nat.pow_lt_pow_right (by decide) (by omega)
  have hone : 1 < 2 ^ bits := Nat.one_lt_two_pow (by omega)
  refine ⟨?_, Nat.or_lt_two_pow (Nat.or_lt_two_pow hv htop) hone⟩
  -- The highest bit is set, and the lowest does not matter.
  calc 2 ^ (bits - 1) ≤ v ||| 2 ^ (bits - 1) := Nat.right_le_or
    _ ≤ v ||| 2 ^ (bits - 1) ||| 1 := Nat.left_le_or

theorem bounds_of_firstPrime {bits limit q : ℕ} {s s' : Sampler σ} (hbits : 2 ≤ bits)
    (h : firstPrime bits limit s = (.ok q, s')) : 2 ^ (bits - 1) ≤ q ∧ q < 2 ^ bits := by
  induction limit generalizing s with
  | zero => cases h
  | succ limit ih =>
    simp only [firstPrime] at h
    split at h
    · cases h
    · cases h
      refine candidate_bounds hbits ?_
      rw [Sampler.bits, Nat.one_shiftLeft]
      exact Nat.mod_lt _ (Nat.two_pow_pos bits)
    · exact ih h

end Primality

theorem bounds_of_randomPrime {bits : ℤ} {q : ℕ} {s s' : Sampler σ}
    (h : randomPrime bits s = (.ok q, s')) :
    2 ^ (bits.toNat - 1) ≤ q ∧ q < 2 ^ bits.toNat := by
  unfold randomPrime at h
  split at h
  · cases h
  rename_i hfew
  split at h
  · rename_i htwo
    subst htwo
    split at h
    · cases h
    · rename_i q' s'' hchoose
      cases h
      have hmem := Sampler.mem_of_choose hchoose
      rcases List.mem_pair.mp hmem with rfl | rfl
      · decide
      · decide
  · exact Primality.bounds_of_firstPrime (by omega) h

namespace Instance

/-- The instance of messages of which one is the caller's own. -/
def ofMessages {m : Modulus} (ms : List (Residue m)) (own : Residue m) : Instance :=
  ⟨m.value, ms.map (·.val), (powerSums ms ms.length).map (·.val), own.val⟩

theorem exists_of_randomOver {m : Modulus} {n : ℤ} {s s' : Sampler σ} {i : Instance}
    (h : randomOver m n s = (.ok i, s')) :
    ∃ ms own, ms.length = n.toNat ∧ own ∈ ms ∧ i = ofMessages (m := m) ms own := by
  have hlen := length_randomResidues m n.toNat s
  unfold randomOver at h
  rcases hdraw : randomResidues m n.toNat s with ⟨ms, t⟩
  rw [hdraw] at h hlen
  simp only at h
  split at h
  · cases h
  · rename_i own t' hchoose
    cases h
    exact ⟨ms, own, hlen, Sampler.mem_of_choose hchoose, rfl⟩

theorem exists_of_random {bits n : ℤ} {s s' : Sampler σ} {i : Instance}
    (h : random bits n s = (.ok i, s')) :
    ∃ (m : Modulus) (ms : List (Residue m)) (own : Residue m),
      2 ^ (bits.toNat - 1) ≤ m.value ∧ m.value < 2 ^ bits.toNat ∧ ms.length = n.toNat ∧
      own ∈ ms ∧ i = ofMessages ms own := by
  unfold random at h
  split at h
  · cases h
  · rename_i q t hprime
    obtain ⟨hlower, hupper⟩ := bounds_of_randomPrime hprime
    unfold randomOverInt at h
    split at h
    · cases h
    · rename_i m hm
      have hq : m.value = q := by
        rw [Modulus.value_of_ofInt hm, Int.toNat_natCast]
      obtain ⟨ms, own, hlen, hown, hi⟩ := exists_of_randomOver h
      rw [← hq] at hlower hupper
      exact ⟨m, ms, own, hlower, hupper, hlen, hown, hi⟩

/-! ## Instances -/

/-- An instance with so many messages over a modulus of so many bits. -/
structure IsOf (i : Instance) (bits count : ℕ) : Prop where
  /-- The modulus has the bits, and no more. -/
  modulus : 2 ^ (bits - 1) ≤ i.modulus ∧ i.modulus < 2 ^ bits
  length : i.messages.length = count
  range : ∀ x ∈ i.messages, 0 ≤ x ∧ x < i.modulus
  /-- The sums are those of the powers of the messages, as many as there are messages. -/
  sums : i.sums =
    (List.range count).map fun k => (i.messages.map (· ^ (k + 1))).sum % i.modulus
  message : i.message ∈ i.messages

theorem isOf_ofMessages {m : Modulus} {bits : ℕ} (hlower : 2 ^ (bits - 1) ≤ m.value)
    (hupper : m.value < 2 ^ bits) {ms : List (Residue m)} {own : Residue m} (hown : own ∈ ms) :
    (ofMessages ms own).IsOf bits ms.length := by
  refine ⟨⟨?_, ?_⟩, List.length_map _, ?_, ?_, List.mem_map_of_mem hown⟩
  · show (2 : ℤ) ^ (bits - 1) ≤ m.value
    exact_mod_cast hlower
  · show (m.value : ℤ) < 2 ^ bits
    exact_mod_cast hupper
  · intro x hx
    obtain ⟨a, -, rfl⟩ := List.mem_map.mp hx
    exact ⟨Int.natCast_nonneg a.val, Int.ofNat_lt.mpr a.val_lt⟩
  · have hsums := powerSums_ofInt (m := m) (ms.map fun a => (a.val : ℤ)) ms.length
    rw [Residue.map_ofInt_val] at hsums
    show (powerSums ms ms.length).map (fun a => (a.val : ℤ)) = _
    rw [hsums, List.map_map]
    exact List.map_congr_left fun k _ => Residue.val_ofInt _

/-- All numbers of an instance read back from their written form. -/
theorem denotes_ofMessages {m : Modulus} (ms : List (Residue m)) (own : Residue m) :
    let i := ofMessages ms own
    ∀ v ∈ i.modulus :: i.message :: i.sums,
      ∃ k : ℕ, v = k ∧ (Value.text (Hex.encodeInt v)).Denotes k := by
  intro i v hv
  have hnat : ∃ k : ℕ, v = k := by
    rcases List.mem_cons.mp hv with rfl | hv
    · exact ⟨_, rfl⟩
    rcases List.mem_cons.mp hv with rfl | hv
    · exact ⟨_, rfl⟩
    · obtain ⟨a, -, rfl⟩ := List.mem_map.mp hv
      exact ⟨_, rfl⟩
  obtain ⟨k, rfl⟩ := hnat
  exact ⟨k, rfl, Value.denotes_encodeInt k⟩

end Instance

/-! ## Recoveries -/

namespace Request

variable {p : Problem} {r : Request} {settings : Settings} {source : σ}
  {ms : List (Residue p.modulus)}

/-- Messages are recovered from their power sums if no step fails. -/
theorem lists_of_powerSums (hr : r.Poses p) (hprime : p.modulus.value.Prime)
    (hcount : p.count < p.modulus.value) (hown : p.message ∈ ms)
    (hsums : p.sums = powerSums ms ms.length)
    (hstatus : (r.recoverWith settings source).report.status ≠ .internalError) :
    (r.recoverWith settings source).report.status = .success ∧
      (r.recoverWith settings source).report.values = (ms.map (·.val)).mergeSort := by
  have : Fact p.modulus.value.Prime := ⟨hprime⟩
  obtain ⟨es, hes⟩ := exists_elementarySymmetric_of_lt hcount
  have hM := Problem.hasSums_powerSums hsums
  obtain ⟨hsuccess, hvalues, -, -⟩ := (ends_recoverWith settings source hr).decides hprime
    (fun M M' hM hM' => hM.unique hes hM') hstatus
  have hfound := hsuccess.mpr ⟨_, hM, Multiset.mem_coe.mpr (List.mem_map_of_mem hown)⟩
  refine ⟨hfound, ?_⟩
  rw [hvalues hfound _ hM, Multiset.coe_sort]

/-- With the Frobenius map, all that can go wrong over a prime above the number of messages is that
the shifts for a split are used up. -/
theorem exhausted_of_internalError (hr : r.Poses p) (hprime : p.modulus.value.Prime)
    (hcount : p.count < p.modulus.value) (hmethod : settings.method = .frobenius)
    (hstatus : (r.recoverWith settings source).report.status = .internalError) :
    Frobenius.UsedUp settings.attempts.toNat (r.recoverWith settings source).journal ∧
      ∃ degree, (r.recoverWith settings source).report = .failed .internalError .symmetric
        (InternalError.splitExhausted degree settings.attempts).message := by
  have : Fact p.modulus.value.Prime := ⟨hprime⟩
  obtain ⟨stage, cause, journal, hb, hrun⟩ :=
    (course_recoverWith settings source hr).exists_breakdown hr.count_le hstatus
  cases hb with
  | count heq => exact absurd heq hcount.ne
  | limit _ hexhaustive _ => cases hmethod.symm.trans hexhaustive
  | attempts _ _ hused degree => exact ⟨hused, degree, by rw [hrun]; rfl⟩

theorem internalError_iff_usedUp (hr : r.Poses p) (hprime : p.modulus.value.Prime)
    (hcount : p.count < p.modulus.value) (hmethod : settings.method = .frobenius) :
    (r.recoverWith settings source).report.status = .internalError ↔
      Frobenius.UsedUp settings.attempts.toNat (r.recoverWith settings source).journal := by
  constructor
  · intro hstatus
    exact (exhausted_of_internalError hr hprime hcount hmethod hstatus).1
  · intro hused
    exact (course_recoverWith settings source hr).internalError_of_breakdown
      (.attempts hcount hmethod hused 0)

/-- If every residue may be tried then nothing can go wrong over a prime above the number of
messages. -/
theorem status_ne_internalError (hr : r.Poses p) (hprime : p.modulus.value.Prime)
    (hcount : p.count < p.modulus.value) (hmethod : settings.method = .exhaustive)
    (hlimit : p.modulus.value ≤ settings.limit) :
    (r.recoverWith settings source).report.status ≠ .internalError := by
  have : Fact p.modulus.value.Prime := ⟨hprime⟩
  intro hstatus
  obtain ⟨stage, cause, -, hb, -⟩ :=
    (course_recoverWith settings source hr).exists_breakdown hr.count_le hstatus
  cases hb with
  | count heq => exact hcount.ne heq
  | limit _ _ hexceeded => exact absurd hlimit (not_le.mpr hexceeded)
  | attempts _ hfrobenius _ _ => cases hmethod.symm.trans hfrobenius

end Request

namespace Instance

/-- A random instance is what it should be, whatever the source gives. Its written form reads back,
and over a prime above the number of messages the request that it poses is answered with the
messages, except if the Frobenius map uses up the shifts for a split. -/
theorem random_recoverable {bits n : ℤ} {s s' : Sampler σ} {i : Instance}
    (h : random bits n s = (.ok i, s')) :
    i.IsOf bits.toNat n.toNat ∧
    (∀ v ∈ i.modulus :: i.message :: i.sums,
      ∃ k : ℕ, v = k ∧ (Value.text (Hex.encodeInt v)).Denotes k) ∧
    ∃ t, InstanceText.parse i.text = .ok t ∧
      t = ⟨Hex.encodeInt i.modulus, Hex.encodeInt i.message, i.sums.map Hex.encodeInt⟩ ∧
      (i.modulus.toNat.Prime → 2 ≤ n → n < i.modulus →
        ∀ (τ : Type) [Source τ] (settings : Settings) (source : τ),
          let run := t.request.recoverWith settings source
          let listed := run.report.status = .success ∧
            run.report.values.map (↑) = i.messages.mergeSort
          (settings.method = .frobenius →
            (run.report.status = .internalError ↔
              Frobenius.UsedUp settings.attempts.toNat run.journal) ∧
            (listed ∨ ∃ degree, run.report = .failed .internalError .symmetric
              (InternalError.splitExhausted degree settings.attempts).message)) ∧
          (settings.method = .exhaustive → i.modulus ≤ settings.limit → listed)) := by
  obtain ⟨m, ms, own, hlower, hupper, hlen, hown, rfl⟩ := exists_of_random h
  have hisOf := isOf_ofMessages hlower hupper hown
  have hne : (ofMessages ms own).sums ≠ [] := by
    intro hnil
    have hzero := congrArg List.length hnil
    rw [ofMessages, List.length_map, length_powerSums, List.length_nil,
      List.length_eq_zero_iff] at hzero
    rw [hzero] at hown
    cases hown
  rw [hlen] at hisOf
  refine ⟨hisOf, denotes_ofMessages ms own, _, parse_text hne, rfl, ?_⟩
  intro hprime htwo hlt τ _ settings source run listed
  let p : Problem := ⟨m, own, powerSums ms ms.length⟩
  have hcount : p.count = n.toNat := (length_powerSums ms ms.length).trans hlen
  have hlt' : p.count < m.value := by
    have : n < m.value := hlt
    omega
  have hr : (Request.ofIntegers m.value own.val (p.sums.map fun a => (a.val : ℤ))).Poses p :=
    Request.poses_ofIntegers (by omega) hlt'.le
  have hlisted : run.report.status ≠ .internalError → listed := by
    intro hstatus
    obtain ⟨hsuccess, hvalues⟩ :=
      Request.lists_of_powerSums hr hprime hlt' hown rfl hstatus
    refine ⟨hsuccess, ?_⟩
    -- The recovery sorts natural numbers, and the messages of the instance are integers.
    have hsort : ((ms.map (·.val)).mergeSort).map (fun x : ℕ => (x : ℤ)) =
        ((ms.map (·.val)).map (fun x : ℕ => (x : ℤ))).mergeSort :=
      List.map_mergeSort fun a _ b _ => by simp
    rw [show run.report.values = _ from hvalues, hsort, List.map_map]
    rfl
  refine ⟨fun hmethod => ?_, fun hmethod hlimit => ?_⟩
  · refine ⟨Request.internalError_iff_usedUp hr hprime hlt' hmethod, ?_⟩
    by_cases hstatus : run.report.status = .internalError
    · exact .inr (Request.exhausted_of_internalError hr hprime hlt' hmethod hstatus).2
    · exact .inl (hlisted hstatus)
  · exact hlisted (Request.status_ne_internalError hr hprime hlt' hmethod hlimit)

/-- A tape on which seven is drawn, then one and three, and three is claimed. -/
theorem random_recoverable_seven :
    let drawn := random 3 2 (Sampler.fresh (Tape.ofList [2, 1, 3, 1]))
    let i : Instance := ⟨7, [1, 3], [4, 3], 3⟩
    let settings : Settings := ⟨"exhaustive", .exhaustive, 64, 7, none, by decide, by decide⟩
    drawn.1 = .ok i ∧ i.IsOf 3 2 ∧ i.text = "7\n3\n4\n3\n" ∧
      ∃ t, InstanceText.parse i.text = .ok t ∧
        (t.request.recoverWith settings (SplitMix.ofSeed none)).report.values.map (↑) =
          ([1, 3] : List ℤ) := by
  intro drawn i settings
  have hdrawn : random 3 2 (Sampler.fresh (Tape.ofList [2, 1, 3, 1])) = (.ok i, drawn.2) :=
    Prod.ext (by decide +kernel) rfl
  obtain ⟨hisOf, -, t, ht, -, hrecovers⟩ := random_recoverable hdrawn
  have hprime : Nat.Prime 7 := by norm_num
  obtain ⟨-, hexhaustive⟩ := hrecovers hprime (by decide) (by decide) SplitMix settings
    (SplitMix.ofSeed none)
  obtain ⟨-, hvalues⟩ := hexhaustive rfl (by decide)
  refine ⟨congrArg Prod.fst hdrawn, hisOf, by decide +kernel, t, ht, ?_⟩
  rw [hvalues]
  exact List.mergeSort_eq_self _ (by decide)

end Instance

end MultisetRecovery

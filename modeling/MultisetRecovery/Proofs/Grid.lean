import MultisetRecovery.Proofs.Instance
import MultisetRecovery.Proofs.Primality
import MultisetRecovery.Timing.Ticks

/-!
# What a timed grid counts as a failure

A plan has a point for each number of messages that is not above the modulus of its row. Over a
prime above the number of messages, a recovery fails to give them exactly if the shifts for a split
are used up. But that is the bound of a request, and Newton's identities ask for more: with as many
messages as residues the point stays in the plan, and every recovery at it fails without a split
(`Plan.failures_of_draw`).
-/

namespace MultisetRecovery

variable {σ : Type} [Source σ]

/-! ## Draws -/

theorem Modulus.ofInt_value (m : Modulus) : ofInt m.value = .ok m := dif_pos m.two_le

theorem Sampler.exists_choose {α : Type} {as : List α} (h : as ≠ []) (s : Sampler σ) :
    ∃ a t, s.choose as = (.ok a, t) ∧ a ∈ as := by
  have hlt := below_lt (List.length_pos_iff.mpr h) s
  have hchoose : s.choose as = (.ok as[(s.below as.length).1], (s.below as.length).2) := by
    rw [choose, if_neg (by simpa using h)]
    simp only [List.getElem?_eq_getElem hlt]
  exact ⟨_, _, hchoose, List.getElem_mem hlt⟩

theorem Primality.exists_firstPrime (bits limit : ℕ) (s : Sampler σ) :
    ∃ t, firstPrime bits limit s = (.error .notFound, t) ∨
      ∃ q, firstPrime bits limit s = (.ok q, t) := by
  induction limit generalizing s with
  | zero => exact ⟨s, .inl rfl⟩
  | succ limit ih =>
    rcases hbits : s.bits bits with ⟨v, u⟩
    obtain ⟨b, t, hrun⟩ :=
      exists_isProbablePrime (v ||| (1 <<< (bits - 1)) ||| 1 : ℕ) defaultRounds u
    rw [firstPrime, hbits]
    simp only [hrun]
    cases b with
    | false => exact ih t
    | true => exact ⟨t, .inr ⟨_, rfl⟩⟩

/-- With two bits at least, all that can go wrong is that no candidate passes. -/
theorem exists_randomPrime {bits : ℤ} (h : 2 ≤ bits) (s : Sampler σ) :
    ∃ t, randomPrime bits s = (.error .notFound, t) ∨ ∃ q, randomPrime bits s = (.ok q, t) := by
  unfold randomPrime
  rw [if_neg (by omega)]
  by_cases htwo : bits = 2
  · have hne : [2, 3] ≠ [] := by simp
    obtain ⟨q, t, hchoose, -⟩ := s.exists_choose hne
    rw [if_pos htwo, hchoose]
    exact ⟨t, .inr ⟨q, rfl⟩⟩
  · rw [if_neg htwo]
    exact Primality.exists_firstPrime _ _ s

/-- The instance has so many messages over this modulus, and one of them is the caller's own. -/
def Instance.IsOver (i : Instance) (m : Modulus) (count : ℕ) : Prop :=
  ∃ ms own, ms.length = count ∧ own ∈ ms ∧ i = ofMessages (m := m) ms own

theorem Instance.exists_randomOverInt (m : Modulus) {n : ℤ} (hn : 2 ≤ n) (s : Sampler σ) :
    ∃ i t, randomOverInt m.value n s = (.ok i, t) ∧ i.IsOver m n.toNat := by
  have hlen := length_randomResidues m n.toNat s
  rw [randomOverInt, Modulus.ofInt_value]
  simp only [randomOver]
  rcases hdraw : randomResidues m n.toNat s with ⟨ms, u⟩
  rw [hdraw] at hlen
  have hne : ms ≠ [] := List.length_pos_iff.mp (by simp only at hlen; omega)
  obtain ⟨own, t, hchoose, hmem⟩ := u.exists_choose hne
  simp only [hchoose]
  exact ⟨_, t, rfl, ms, own, hlen, hmem, rfl⟩

/-! ## Plans -/

/-- The instances of a point are so many, over one modulus that is not below the number of
messages. -/
structure GridPoint.IsOver (p : GridPoint) (m : Modulus) (repeats : ℕ) : Prop where
  two_le : 2 ≤ p.count
  count_le : p.count ≤ m.value
  length : p.instances.length = repeats
  instances : ∀ i ∈ p.instances, i.IsOver m p.count.toNat

namespace Plan

/-- A row has a point for each number of messages up to the modulus and a warning for each above
it. -/
structure IsRow (row : Plan) (m : Modulus) (bits : ℤ) (repeats : ℕ) (counts : List ℤ) : Prop where
  points : List.Forall₂ (fun n p => p.bits = bits ∧ p.count = n ∧ p.IsOver m repeats)
    (counts.filter fun n => n ≤ (m.value : ℤ)) row.points
  warnings : row.warnings =
    (counts.filter fun n => (m.value : ℤ) < n).map fun n => .gridPointSkipped n bits

/-- A grid has a row for each size, over a modulus with so many bits. -/
inductive IsGrid (repeats : ℕ) (counts : List ℤ) : List ℤ → Plan → Prop where
  | nil : IsGrid repeats counts [] ⟨[], []⟩
  | cons {bits : ℤ} {sizes : List ℤ} {row rest : Plan} (m : Modulus)
    (hlower : 2 ^ (bits.toNat - 1) ≤ m.value) (hupper : m.value < 2 ^ bits.toNat)
    (hrow : row.IsRow m bits repeats counts) (hrest : IsGrid repeats counts sizes rest) :
    IsGrid repeats counts (bits :: sizes)
      ⟨row.points ++ rest.points, row.warnings ++ rest.warnings⟩

theorem exists_drawInstances (m : Modulus) {n : ℤ} (hn : 2 ≤ n) (repeats : ℕ) (s : Sampler σ) :
    ∃ is t, drawInstances m.value n repeats s = (.ok is, t) ∧ is.length = repeats ∧
      ∀ i ∈ is, i.IsOver m n.toNat := by
  induction repeats generalizing s with
  | zero => exact ⟨[], s, rfl, rfl, by simp⟩
  | succ repeats ih =>
    obtain ⟨i, u, hdraw, hi⟩ := Instance.exists_randomOverInt m hn s
    obtain ⟨is, t, hrest, hlength, his⟩ := ih u
    refine ⟨i :: is, t, ?_, by rw [List.length_cons, hlength], List.forall_mem_cons.mpr ⟨hi, his⟩⟩
    rw [drawInstances, hdraw]
    simp only [hrest]

theorem exists_drawRow (m : Modulus) (bits : ℤ) (repeats : ℕ) {counts : List ℤ}
    (hcounts : ∀ n ∈ counts, 2 ≤ n) (s : Sampler σ) :
    ∃ row t, drawRow bits m.value repeats counts s = (.ok row, t) ∧
      row.IsRow m bits repeats counts := by
  induction counts generalizing s with
  | nil => exact ⟨⟨[], []⟩, s, rfl, .nil, rfl⟩
  | cons n counts ih =>
    rw [List.forall_mem_cons] at hcounts
    obtain ⟨hn, hcounts⟩ := hcounts
    by_cases hskip : (m.value : ℤ) < n
    · obtain ⟨row, t, hrow, hpoints, hwarnings⟩ := ih hcounts s
      refine ⟨⟨row.points, .gridPointSkipped n bits :: row.warnings⟩, t, ?_, ?_, ?_⟩
      · rw [drawRow, if_pos hskip, hrow]
      · rwa [List.filter_cons_of_neg (by simpa using hskip)]
      · rw [List.filter_cons_of_pos (by simpa using hskip), List.map_cons, hwarnings]
    · obtain ⟨is, u, hdraw, hlength, his⟩ := exists_drawInstances m hn repeats s
      obtain ⟨row, t, hrow, hpoints, hwarnings⟩ := ih hcounts u
      refine ⟨⟨⟨bits, n, is⟩ :: row.points, row.warnings⟩, t, ?_, ?_, ?_⟩
      · rw [drawRow, if_neg hskip, hdraw]
        simp only [hrow]
      · rw [List.filter_cons_of_pos (by simpa using hskip)]
        exact .cons ⟨rfl, rfl, hn, not_lt.mp hskip, hlength, his⟩ hpoints
      · rw [List.filter_cons_of_neg (by simpa using hskip), hwarnings]

theorem draw_spec {sizes counts : List ℤ} (hsizes : ∀ bits ∈ sizes, 2 ≤ bits)
    (hcounts : ∀ n ∈ counts, 2 ≤ n) (repeats : ℕ) (s : Sampler σ) :
    (∃ t, draw counts repeats sizes s = (.error (.prime .notFound), t)) ∨
      ∃ plan t, draw counts repeats sizes s = (.ok plan, t) ∧
        IsGrid repeats counts sizes plan := by
  induction sizes generalizing s with
  | nil => exact .inr ⟨_, s, rfl, .nil⟩
  | cons bits sizes ih =>
    rw [List.forall_mem_cons] at hsizes
    obtain ⟨hbits, hsizes⟩ := hsizes
    rw [draw]
    obtain ⟨u, hnone | ⟨q, hprime⟩⟩ := exists_randomPrime hbits s
    · rw [hnone]
      exact .inl ⟨u, rfl⟩
    obtain ⟨hlower, hupper⟩ := bounds_of_randomPrime hprime
    have htwo : 2 ≤ q := le_trans (Nat.le_self_pow (by omega) 2) hlower
    obtain ⟨row, v, hdraw, hrow⟩ := exists_drawRow ⟨q, htwo⟩ bits repeats hcounts u
    simp only [hprime, hdraw]
    rcases ih hsizes v with ⟨t, hrest⟩ | ⟨rest, t, hrest, hgrid⟩
    · simp only [hrest]
      exact .inl ⟨t, rfl⟩
    · simp only [hrest]
      exact .inr ⟨_, t, rfl, .cons ⟨q, htwo⟩ hlower hupper hrow hgrid⟩

end Plan

/-! ## One instance -/

namespace Instance

variable {m : Modulus} {ms : List (Residue m)} {own : Residue m}

theorem poses_request (htwo : 2 ≤ ms.length) (hle : ms.length ≤ m.value) :
    (ofMessages ms own).request.Poses ⟨m, own, powerSums ms ms.length⟩ := by
  have hcount : (powerSums ms ms.length).length = ms.length := length_powerSums ms ms.length
  exact Request.poses_ofIntegers (p := ⟨m, own, powerSums ms ms.length⟩)
    (by rwa [Problem.count, hcount]) (by rwa [Problem.count, hcount])

theorem isSolvedBy_of_lt (settings : Settings) (source : σ) (hprime : m.value.Prime)
    (htwo : 2 ≤ ms.length) (hlt : ms.length < m.value) (hown : own ∈ ms)
    (hmethod : settings.method = .frobenius) :
    let i := ofMessages ms own
    let run := i.request.recoverWith settings source
    i.isSolvedBy run.report = true ↔
      ¬ Frobenius.UsedUp settings.attempts.toNat run.journal := by
  intro i run
  have hcount : (powerSums ms ms.length).length = ms.length := length_powerSums ms ms.length
  have hr : i.request.Poses ⟨m, own, powerSums ms ms.length⟩ := poses_request htwo hlt.le
  have hlt' : (powerSums ms ms.length).length < m.value := by rwa [hcount]
  have hiff : run.report.status = .internalError ↔ _ :=
    Request.internalError_iff_usedUp hr hprime hlt' hmethod
  rw [← hiff]
  constructor
  · intro hsolved hstatus
    simp [isSolvedBy, Report.ok, hstatus] at hsolved
  · intro hstatus
    obtain ⟨hsuccess, hvalues⟩ := Request.lists_of_powerSums hr hprime hlt' hown rfl hstatus
    -- The recovery sorts natural numbers, and the messages of the instance are integers.
    have hsort : ((ms.map (·.val)).mergeSort).map Int.ofNat =
        ((ms.map (·.val)).map Int.ofNat).mergeSort :=
      List.map_mergeSort fun a _ b _ => by simp
    have hmessages : run.report.values.map Int.ofNat = i.messages.mergeSort := by
      rw [show run.report.values = _ from hvalues, hsort, List.map_map]
      rfl
    simp only [isSolvedBy, Report.ok, hmessages, show run.report.status = _ from hsuccess]
    simp

/-- With as many messages as residues a recovery does not come to a split. -/
theorem isSolvedBy_of_length_eq (settings : Settings) (source : σ) (hprime : m.value.Prime)
    (hlen : ms.length = m.value) :
    let i := ofMessages ms own
    let run := i.request.recoverWith settings source
    i.isSolvedBy run.report = false ∧
      ¬ Frobenius.UsedUp settings.attempts.toNat run.journal := by
  intro i run
  have hcount : (powerSums ms ms.length).length = m.value :=
    (length_powerSums ms ms.length).trans hlen
  have hr : i.request.Poses ⟨m, own, powerSums ms ms.length⟩ :=
    poses_request (by rw [hlen]; exact hprime.two_le) hlen.le
  have : Fact m.value.Prime := ⟨hprime⟩
  have hrun : run = Problem.failed _ [_] .validated (.internal _) :=
    (Request.recoverWith_eq settings source hr).trans
      (Problem.recover_of_error (elementarySymmetric_of_length_eq hcount) _ source _)
  rw [hrun]
  refine ⟨by simp [isSolvedBy, Report.ok, Problem.failed, Report.failed, Failure.status], ?_⟩
  intro hused
  have hattempts := settings.one_le_attempts
  obtain ⟨shift, hmem⟩ := hused.exists_mem (by omega)
  simp [Problem.failed, Failure.event] at hmem

end Instance

/-! ## Points -/

namespace GridPoint

/-- The recoveries of the instances, each with random shifts from a source of its own. -/
def recoveries (settings : Settings) (sources : ℕ → σ) (p : GridPoint) :
    List (Instance × Recovery) :=
  p.instances.zipIdx.map fun x => (x.1, x.1.request.recoverWith settings (sources x.2))

/-- The number of recoveries that do not give the messages of their instance. -/
def failures (settings : Settings) (sources : ℕ → σ) (p : GridPoint) : ℕ :=
  (p.recoveries settings sources).countP fun x => !x.1.isSolvedBy x.2.report

open Classical in
/-- The number of recoveries with a split that runs out of shifts. -/
noncomputable def exhausted (settings : Settings) (sources : ℕ → σ) (p : GridPoint) : ℕ :=
  (p.recoveries settings sources).countP fun x =>
    Frobenius.UsedUp settings.attempts.toNat x.2.journal

variable {m : Modulus} {p : GridPoint} {repeats : ℕ} {settings : Settings} {sources : ℕ → σ}

theorem length_recoveries (settings : Settings) (sources : ℕ → σ) (p : GridPoint) :
    (p.recoveries settings sources).length = p.instances.length := by
  rw [recoveries, List.length_map, List.length_zipIdx]

theorem recoveries_const (source : σ) : p.recoveries settings (fun _ => source) =
    p.instances.map fun i => (i, i.request.recoverWith settings source) := by
  conv_rhs => rw [← List.zipIdx_map_fst 0 p.instances, List.map_map]
  rfl

theorem IsOver.of_mem_recoveries (h : p.IsOver m repeats) {i : Instance} {run : Recovery}
    (hmem : (i, run) ∈ p.recoveries settings sources) :
    i.IsOver m p.count.toNat ∧ ∃ k, run = i.request.recoverWith settings (sources k) := by
  obtain ⟨⟨i', k⟩, hik, heq⟩ := List.mem_map.mp hmem
  obtain ⟨rfl, rfl⟩ := Prod.mk.inj heq
  exact ⟨h.instances _ (List.fst_mem_of_mem_zipIdx hik), k, rfl⟩

theorem IsOver.failures_of_lt (h : p.IsOver m repeats) (hprime : m.value.Prime)
    (hlt : p.count < m.value) (hmethod : settings.method = .frobenius) :
    p.failures settings sources = p.exhausted settings sources := by
  refine List.countP_congr fun (i, run) hmem => ?_
  obtain ⟨⟨ms, own, hlen, hown, rfl⟩, k, rfl⟩ := h.of_mem_recoveries hmem
  have htwo := h.two_le
  have hsolved := Instance.isSolvedBy_of_lt settings (sources k) hprime (by omega) (by omega) hown
    hmethod
  simp only [Bool.not_eq_true', decide_eq_true_iff, ← Bool.not_eq_true]
  exact not_iff_comm.mp hsolved.symm

theorem IsOver.failures_of_eq (h : p.IsOver m repeats) (hprime : m.value.Prime)
    (heq : p.count = m.value) :
    p.failures settings sources = repeats ∧ p.exhausted settings sources = 0 := by
  have hfails : ∀ x ∈ p.recoveries settings sources, x.1.isSolvedBy x.2.report = false ∧
      ¬ Frobenius.UsedUp settings.attempts.toNat x.2.journal := by
    rintro ⟨i, run⟩ hmem
    obtain ⟨⟨ms, own, hlen, -, rfl⟩, k, rfl⟩ := h.of_mem_recoveries hmem
    exact Instance.isSolvedBy_of_length_eq settings _ hprime (by omega)
  constructor
  · rw [← h.length, ← length_recoveries settings sources, failures, List.countP_eq_length]
    intro x hmem
    rw [(hfails x hmem).1]
    rfl
  · rw [exhausted, List.countP_eq_zero]
    intro x hmem
    simpa using (hfails x hmem).2

end GridPoint

/-! ## Measurements -/

namespace Ticks

/-- What holds of a step at any time holds of all steps of a run. -/
theorem forall₂_mapM {α β : Type} {R : α → β → Prop} {f : α → StateM Ticks β}
    (h : ∀ a t, R a ((f a).run t).1) (as : List α) (t : Ticks) :
    List.Forall₂ R as ((as.mapM f).run t).1 := by
  induction as generalizing t with
  | nil => exact .nil
  | cons a as ih =>
    rw [List.mapM_cons]
    exact .cons (h a t) (ih _)

theorem measure_spec (settings : Settings) (p : GridPoint) (t : Ticks) :
    let x := ((stopwatch.measure (some settings) p).run t).1
    x.bits = p.bits ∧ x.count = p.count ∧
      x.failures = p.failures settings fun _ => SplitMix.ofSeed (settings.seedFor none) := by
  refine ⟨rfl, rfl, ?_⟩
  let recovery (i : Instance) := i.request.recover (some settings) none
  let rs := ((p.instances.mapM (stopwatch.time (some settings))).run t).1
  have hrs : List.Forall₂ (fun i r => i.isSolvedBy (recovery i).report = r.2) p.instances rs :=
    forall₂_mapM (fun i t => rfl) _ t
  have hmap : rs.map (·.2) = p.instances.map fun i => i.isSolvedBy (recovery i).report := by
    symm
    rwa [← List.forall₂_eq_eq_eq, List.forall₂_map_left_iff, List.forall₂_map_right_iff]
  calc (rs.filter (!·.2)).length = (rs.map (·.2)).countP (!·) := by
        rw [← List.countP_eq_length_filter, List.countP_map]
        rfl
    _ = p.failures settings fun _ => SplitMix.ofSeed (settings.seedFor none) := by
        rw [hmap, List.countP_map, GridPoint.failures, GridPoint.recoveries_const, List.countP_map]
        rfl

end Ticks

/-! ## Grids -/

namespace Plan

/-- A plan is a grid of points, row by row, and a measurement counts the recoveries at its point
that fail. Over a prime, and wherever the random shifts come from, the recoveries that fail at a
point with fewer messages than residues number as many as those that run out of shifts. At a point
with as many messages, all of them fail, and none of them runs out of shifts. -/
theorem failures_of_draw (settings : Settings) (hmethod : settings.method = .frobenius)
    {sizes counts : List ℤ} (hsizes : ∀ bits ∈ sizes, 2 ≤ bits) (hcounts : ∀ n ∈ counts, 2 ≤ n)
    (repeats : ℕ) (s : Sampler σ) :
    (draw counts repeats sizes s).1 = .error (.prime .notFound) ∨
    ∃ plan, (draw counts repeats sizes s).1 = .ok plan ∧ IsGrid repeats counts sizes plan ∧
      ∀ t : Ticks, List.Forall₂ (fun p x => x.bits = p.bits ∧ x.count = p.count ∧
          x.failures = p.failures settings (fun _ => SplitMix.ofSeed (settings.seedFor none)) ∧
          ∀ m, p.IsOver m repeats → m.value.Prime →
            ∀ (τ : Type) [Source τ] (sources : ℕ → τ),
              (p.count < m.value →
                p.failures settings sources = p.exhausted settings sources) ∧
              (p.count = m.value →
                p.failures settings sources = repeats ∧ p.exhausted settings sources = 0))
        plan.points ((Ticks.stopwatch.measureAll (some settings) plan).run t).1 := by
  rcases draw_spec hsizes hcounts repeats s with ⟨u, hdraw⟩ | ⟨plan, u, hdraw, hgrid⟩
  · exact .inl (by rw [hdraw])
  refine .inr ⟨plan, by rw [hdraw], hgrid, fun t => ?_⟩
  refine Ticks.forall₂_mapM (fun p t => ?_) plan.points t
  obtain ⟨hbits, hcount, hfailures⟩ := Ticks.measure_spec settings p t
  refine ⟨hbits, hcount, hfailures, fun m hover hprime τ _ sources => ?_⟩
  exact ⟨fun hlt => hover.failures_of_lt hprime hlt hmethod, hover.failures_of_eq hprime⟩

/-- Of two points over seven, one with two messages and one with seven, the second fails. -/
theorem failures_of_draw_seven :
    let settings := Settings.seeded 2
    let sources : ℕ → SplitMix := fun _ => SplitMix.ofSeed (some 2)
    let few : GridPoint := ⟨3, 2, [⟨7, [0, 3], [3, 2], 3⟩]⟩
    let many : GridPoint := ⟨3, 7, [⟨7, [5, 4, 3, 4, 2, 0, 4], [1, 2, 2, 6, 4, 6, 1], 4⟩]⟩
    settings.method = .frobenius ∧ (∀ bits ∈ [(3 : ℤ)], 2 ≤ bits) ∧ (∀ n ∈ [(2 : ℤ), 7], 2 ≤ n) ∧
      (draw [2, 7] 1 [3] (.fresh (SplitMix.ofSeed (some 2)))).1 = .ok ⟨[few, many], []⟩ ∧
      (∃ x y, ((Ticks.stopwatch.measureAll (some settings) ⟨[few, many], []⟩).run
          (Ticks.ofList [])).1 = [x, y] ∧
        x.failures = few.exhausted settings sources ∧
        y.failures = 1 ∧ many.exhausted settings sources = 0) ∧
      ∀ tapes : ℕ → Tape, few.failures settings tapes = few.exhausted settings tapes ∧
        many.failures settings tapes = 1 := by
  intro settings sources few many
  let m : Modulus := ⟨7, by decide⟩
  have hsizes : ∀ bits ∈ [(3 : ℤ)], 2 ≤ bits := by decide
  have hcounts : ∀ n ∈ [(2 : ℤ), 7], 2 ≤ n := by decide
  have hdraw : (draw [2, 7] 1 [3] (.fresh (SplitMix.ofSeed (some 2)))).1 =
      .ok ⟨[few, many], []⟩ := by decide +kernel
  have hfew : few.IsOver m 1 := by
    refine ⟨by decide, by decide, rfl, List.forall_mem_singleton.mpr ?_⟩
    exact ⟨[⟨0, by decide⟩, ⟨3, by decide⟩], ⟨3, by decide⟩, rfl, by decide, by decide +kernel⟩
  have hmany : many.IsOver m 1 := by
    refine ⟨by decide, by decide, rfl, List.forall_mem_singleton.mpr ?_⟩
    exact ⟨[5, 4, 3, 4, 2, 0, 4].map (Residue.ofNat m), ⟨4, by decide⟩, rfl, by decide,
      by decide +kernel⟩
  have hprime : Nat.Prime 7 := by norm_num
  refine ⟨rfl, hsizes, hcounts, hdraw, ?_⟩
  rcases failures_of_draw settings rfl hsizes hcounts 1 (.fresh (SplitMix.ofSeed (some 2))) with
    herror | ⟨plan, hplan, -, hmeasured⟩
  · cases herror.symm.trans hdraw
  obtain rfl : ⟨[few, many], []⟩ = plan := Except.ok.inj (hdraw.symm.trans hplan)
  obtain ⟨x, rest, ⟨-, -, hx, hfailures⟩, hrest, heq⟩ :=
    List.forall₂_cons_left_iff.mp (hmeasured (Ticks.ofList []))
  obtain ⟨y, rest, ⟨-, -, hy, hfailures'⟩, hnil, rfl⟩ := List.forall₂_cons_left_iff.mp hrest
  obtain rfl := List.forall₂_nil_left_iff.mp hnil
  refine ⟨⟨x, y, heq, ?_⟩, fun tapes => ?_⟩
  · obtain ⟨hlt, -⟩ := hfailures m hfew hprime SplitMix sources
    obtain ⟨-, hle⟩ := hfailures' m hmany hprime SplitMix sources
    obtain ⟨hall, hnone⟩ := hle rfl
    exact ⟨hx.trans (hlt (by decide)), hy.trans hall, hnone⟩
  · obtain ⟨hlt, -⟩ := hfailures m hfew hprime Tape tapes
    obtain ⟨-, hle⟩ := hfailures' m hmany hprime Tape tapes
    exact ⟨hlt (by decide), (hle rfl).1⟩

/-- A point with as many messages as residues is not left out, and it has a failure though no split
runs out of shifts. -/
theorem exists_failure_without_split :
    ∃ plan p x, ofSeed [3] [7] 1 2 = .ok plan ∧ plan.points = [p] ∧ plan.warnings = [] ∧
      ((Ticks.stopwatch.measureAll (some (.seeded 2)) plan).run (Ticks.ofList [])).1 = [x] ∧
      p.IsOver ⟨7, by decide⟩ 1 ∧ Nat.Prime 7 ∧
      x.failures = 1 ∧ p.exhausted (.seeded 2) (fun _ => SplitMix.ofSeed (some 2)) = 0 := by
  let p : GridPoint := ⟨3, 7, [⟨7, [0, 3, 0, 5, 4, 3, 4], [5, 5, 6, 4, 3, 5, 5], 0⟩]⟩
  let m : Modulus := ⟨7, by decide⟩
  have hplan : ofSeed [3] [7] 1 2 = .ok ⟨[p], []⟩ := by decide +kernel
  have hover : p.IsOver m 1 := by
    refine ⟨by decide, by decide, rfl, List.forall_mem_singleton.mpr ?_⟩
    exact ⟨[0, 3, 0, 5, 4, 3, 4].map (Residue.ofNat m), ⟨0, by decide⟩, rfl, by decide,
      by decide +kernel⟩
  have hprime : Nat.Prime 7 := by norm_num
  let sources : ℕ → SplitMix := fun _ => SplitMix.ofSeed (some 2)
  obtain ⟨hfailures, hexhausted⟩ : p.failures (.seeded 2) sources = 1 ∧
      p.exhausted (.seeded 2) sources = 0 := hover.failures_of_eq hprime rfl
  obtain ⟨-, -, hx⟩ := Ticks.measure_spec (.seeded 2) p (Ticks.ofList [])
  exact ⟨⟨[p], []⟩, p, _, hplan, rfl, rfl, rfl, hover, hprime, hx.trans hfailures, hexhausted⟩

end Plan

end MultisetRecovery

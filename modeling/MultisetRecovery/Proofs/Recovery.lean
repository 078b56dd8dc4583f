import Mathlib.Data.Multiset.Sort
import Mathlib.Data.Nat.ModEq
import MultisetRecovery.Proofs.Extraction

/-!
# A recovery is right

What a recovery reports as messages has the given power sums, over any modulus and whatever numbers
were drawn. Over a prime modulus there is at most one multiset with these power sums, and a recovery
in which no step fails decides whether there is one, and whether the caller's own message belongs to
it. What a recovery can do is said once, by `Problem.Course`; what its report can say about
solutions is said by `Problem.Ends`.
-/

open Polynomial

namespace MultisetRecovery

namespace Problem

variable {p : Problem}

/-! ## Solutions -/

/-- A multiset of as many least representatives as there are power sums, which has these. -/
structure HasSums (p : Problem) (M : Multiset ℕ) : Prop where
  /-- There are as many messages as sums. -/
  card : M.card = p.count
  /-- All messages are least representatives. -/
  lt : ∀ x ∈ M, x < p.modulus.value
  /-- The sums are those of the powers. -/
  sums : ∀ k (hk : k < p.sums.length),
    (M.map (· ^ (k + 1))).sum ≡ p.sums[k].val [MOD p.modulus.value]

/-- The elements as residues. -/
def residues (p : Problem) (M : Multiset ℕ) : Multiset (ZMod p.modulus.value) := M.map Nat.cast

theorem sum_modEq_iff {M : Multiset ℕ} {k : ℕ} (hk : k < p.sums.length) :
    (M.map (· ^ (k + 1))).sum ≡ p.sums[k].val [MOD p.modulus.value] ↔
      ((p.residues M).map (· ^ (k + 1))).sum = powerSumAt p.sums (k + 1) := by
  have hsum : powerSumAt p.sums (k + 1) = (p.sums[k].val : ZMod p.modulus.value) := by
    rw [powerSumAt_succ hk]
    rfl
  rw [← ZMod.natCast_eq_natCast_iff, hsum, residues, Multiset.map_map, Nat.cast_multiset_sum,
    Multiset.map_map]
  simp

/-- A multiset has the power sums exactly if the polynomial of the elementary symmetric functions is
the product of its linear factors. -/
theorem hasSums_iff_eq_prod {es : List (Residue p.modulus)}
    (hes : elementarySymmetric p.sums = .ok es) {M : Multiset ℕ} (hcard : M.card = p.count)
    (hlt : ∀ x ∈ M, x < p.modulus.value) :
    p.HasSums M ↔
      (Poly.ofElementary es).toPolynomial = ((p.residues M).map fun x => X - C x).prod := by
  rw [toPolynomial_ofElementary_eq_prod_iff_sums hes (by rwa [residues, Multiset.card_map])]
  constructor
  · intro h k hk
    exact (sum_modEq_iff hk).mp (h.sums k hk)
  · intro h
    exact ⟨hcard, hlt, fun k hk => (sum_modEq_iff hk).mpr (h k hk)⟩

theorem val_residues {M : Multiset ℕ} (hlt : ∀ x ∈ M, x < p.modulus.value) :
    (p.residues M).map ZMod.val = M := by
  rw [residues, Multiset.map_map]
  conv_rhs => rw [← Multiset.map_id M]
  exact Multiset.map_congr rfl fun x hx => ZMod.val_natCast_of_lt (hlt x hx)

/-- Over a prime modulus the power sums belong to one multiset. -/
theorem HasSums.unique [Fact p.modulus.value.Prime] {es : List (Residue p.modulus)}
    (hes : elementarySymmetric p.sums = .ok es) {M M' : Multiset ℕ} (h : p.HasSums M)
    (h' : p.HasSums M') : M = M' := by
  have hprod := (hasSums_iff_eq_prod hes h.card h.lt).mp h
  have hprod' := (hasSums_iff_eq_prod hes h'.card h'.lt).mp h'
  have hresidues : p.residues M = p.residues M' := by
    rw [← roots_multiset_prod_X_sub_C (p.residues M), ← hprod, hprod', roots_multiset_prod_X_sub_C]
  rw [← val_residues h.lt, hresidues, val_residues h'.lt]

/-- Messages have their power sums. -/
theorem hasSums_powerSums {ms : List (Residue p.modulus)} (h : p.sums = powerSums ms ms.length) :
    p.HasSums (ms.map (·.val)) := by
  have hlen : p.sums.length = ms.length := by rw [h, length_powerSums]
  refine ⟨?_, ?_, fun k hk => (sum_modEq_iff hk).mpr ?_⟩
  · rw [Multiset.coe_card, List.length_map]
    exact hlen.symm
  · intro x hx
    obtain ⟨a, -, rfl⟩ := List.mem_map.mp (Multiset.mem_coe.mp hx)
    exact a.val_lt
  · rw [h, powerSumAt_powerSums ms (by omega), residues, Multiset.map_coe, Multiset.map_coe,
      Multiset.sum_coe, List.map_map, List.map_map]
    rfl

/-! ## Courses -/

theorem finish_of_mem {roots : RootMultiset} (hfits : roots.Fits p.modulus p.count)
    {buffers : Value} (hbuffers : buffers.Receives p.modulus.bufferSize p.count)
    (hown : p.message.val ∈ roots.values) (journal : List Event) :
    p.finish buffers journal roots = ⟨.solved (roots.values.map Hex.encode),
      (buffers.writeBuffers p.modulus (roots.values.map Hex.encode)).1,
      (Event.solved p.count :: journal).reverse⟩ := by
  rw [← hfits.length_values] at hbuffers
  have hwrite : buffers.writeBuffers p.modulus (roots.values.map Hex.encode) =
      ((buffers.writeBuffers p.modulus (roots.values.map Hex.encode)).1, none) :=
    Prod.ext rfl hbuffers.writeBuffers_snd
  unfold finish
  rw [hfits.assemble_eq, if_pos hown]
  simp only
  rw [hwrite]
  simp only [List.length_map, hfits.length_values]

theorem finish_of_not_mem {roots : RootMultiset} (hfits : roots.Fits p.modulus p.count)
    (hown : p.message.val ∉ roots.values) (buffers : Value) (journal : List Event) :
    p.finish buffers journal roots =
      failed buffers journal .factored (.noSolution (.ownMessageMissing p.message.val)) := by
  unfold finish
  rw [hfits.assemble_eq, if_neg hown]

variable {σ : Type}

/-- The session in which the search for roots is started. -/
def session (p : Problem) (source : σ) : Session σ :=
  { Session.fresh source with
    journal := [.symmetricKnown p.count, .validated p.count p.modulus.bitLength] }

/-- What a recovery leaves behind whose search for roots has ended so. -/
def conclude (p : Problem) (buffers : Value) : Except Failure RootMultiset × Session σ → Recovery
  | (.error e, s) => failed buffers s.journal .symmetric e
  | (.ok roots, s) => p.finish buffers s.journal roots

variable [Source σ]

theorem recover_of_error {e : InternalError} (h : elementarySymmetric p.sums = .error e)
    (finder : Finder) (source : σ) (buffers : Value) :
    p.recover finder source buffers =
      failed buffers [.validated p.count p.modulus.bitLength] .validated (.internal e) := by
  unfold recover
  rw [h]

theorem recover_of_ok {es : List (Residue p.modulus)} (h : elementarySymmetric p.sums = .ok es)
    (finder : Finder) (source : σ) (buffers : Value) :
    p.recover finder source buffers =
      p.conclude buffers ((extractRoots es finder).run.run (p.session source)) := by
  unfold recover
  rw [h]
  simp only [session]
  split
  · rename_i e s hrun
    rw [hrun, conclude]
  · rename_i roots s hrun
    rw [hrun, conclude]

/-- The roots that are extracted have the power sums. -/
theorem hasSums_of_extractRoots {finder : Finder} (hfinder : finder.Computes)
    {es : List (Residue p.modulus)} (hes : elementarySymmetric p.sums = .ok es)
    {roots : RootMultiset} {s t : Session σ}
    (hrun : (extractRoots es finder).run.run s = (.ok roots, t)) :
    roots.Fits p.modulus p.count ∧ p.HasSums roots.values := by
  have hextract : (extractRoots es finder : Search σ _).Ensures _ _ :=
    ensures_extractRoots hfinder es
  obtain ⟨hfits, hprod⟩ := hextract.of_run hrun
  have hlen : es.length = p.count := length_elementarySymmetric hes
  rw [hlen] at hfits
  refine ⟨hfits, (hasSums_iff_eq_prod hes ?_ fun x hx => hfits.lt_of_mem_values hx).mpr ?_⟩
  · rw [Multiset.coe_card, hfits.length_values]
  · rw [hprod, hfits.product_eq]
    rfl

/-- A failure to extract roots that is no failure of a step means that there is no solution. -/
theorem not_hasSums_of_extractRoots {finder : Finder} (hfinder : finder.Computes)
    {es : List (Residue p.modulus)} (hes : elementarySymmetric p.sums = .ok es)
    {cause : NoSolution} {s t : Session σ}
    (hrun : (extractRoots es finder).run.run s = (.error (.noSolution cause), t))
    (hprime : p.modulus.value.Prime) (M : Multiset ℕ) : ¬ p.HasSums M := by
  have hextract : (extractRoots es finder : Search σ _).Ensures _ _ :=
    ensures_extractRoots hfinder es
  intro hM
  rcases hextract.of_run_error hrun hprime with ⟨_, hinternal⟩ | hnone
  · cases hinternal
  · exact hnone _ ((hasSums_iff_eq_prod hes hM.card hM.lt).mp hM)

/-- All that the recovery of a problem can do. -/
inductive Course (p : Problem) (finder : Finder) (source : σ) (buffers : Value) : Recovery → Prop
    where
  /-- Newton's identities cannot be solved for the elementary symmetric functions. -/
  | uncomputed {e : InternalError} (hes : elementarySymmetric p.sums = .error e) :
    Course p finder source buffers
      (failed buffers [.validated p.count p.modulus.bitLength] .validated (.internal e))
  /-- No roots are extracted. -/
  | unextracted {es : List (Residue p.modulus)} {e : Failure} {s : Session σ}
    (hes : elementarySymmetric p.sums = .ok es)
    (hrun : (extractRoots es finder).run.run (p.session source) = (.error e, s)) :
    Course p finder source buffers (failed buffers s.journal .symmetric e)
  /-- The caller's own message is not among the roots. -/
  | foreign {es : List (Residue p.modulus)} {roots : RootMultiset} {s : Session σ}
    (hes : elementarySymmetric p.sums = .ok es)
    (hrun : (extractRoots es finder).run.run (p.session source) = (.ok roots, s))
    (hfits : roots.Fits p.modulus p.count) (hsums : p.HasSums roots.values)
    (hown : p.message.val ∉ roots.values) :
    Course p finder source buffers
      (failed buffers s.journal .factored (.noSolution (.ownMessageMissing p.message.val)))
  /-- The roots are the messages. -/
  | solved {es : List (Residue p.modulus)} {roots : RootMultiset} {s : Session σ}
    (hes : elementarySymmetric p.sums = .ok es)
    (hrun : (extractRoots es finder).run.run (p.session source) = (.ok roots, s))
    (hfits : roots.Fits p.modulus p.count) (hsums : p.HasSums roots.values)
    (hown : p.message.val ∈ roots.values) :
    Course p finder source buffers ⟨.solved (roots.values.map Hex.encode),
      (buffers.writeBuffers p.modulus (roots.values.map Hex.encode)).1,
      (Event.solved p.count :: s.journal).reverse⟩

theorem course_recover {finder : Finder} (hfinder : finder.Computes) (source : σ) {buffers : Value}
    (hbuffers : buffers.Receives p.modulus.bufferSize p.count) :
    p.Course finder source buffers (p.recover finder source buffers) := by
  cases hes : elementarySymmetric p.sums with
  | error e =>
    rw [recover_of_error hes]
    exact .uncomputed hes
  | ok es =>
    rw [recover_of_ok hes]
    rcases hrun : (extractRoots es finder).run.run (p.session source) with ⟨e | roots, s⟩
    · exact .unextracted hes hrun
    · obtain ⟨hfits, hsums⟩ := hasSums_of_extractRoots hfinder hes hrun
      rw [conclude]
      by_cases hown : p.message.val ∈ roots.values
      · rw [finish_of_mem hfits hbuffers hown]
        exact .solved hes hrun hfits hsums hown
      · rw [finish_of_not_mem hfits hown]
        exact .foreign hes hrun hfits hsums hown

/-! ## Endings -/

/-- The reports that the recovery of a problem can end with. -/
inductive Ends (p : Problem) : Report → Prop where
  /-- A step failed. -/
  | failed (stage : Stage) (reason : String) : Ends p (.failed .internalError stage reason)
  /-- Over a prime modulus there is no solution. -/
  | unsolvable (reason : String) (h : p.modulus.value.Prime → ∀ M, ¬ p.HasSums M) :
    Ends p (.failed .invalidSolution .symmetric reason)
  /-- There is a solution without the caller's own message. -/
  | foreign (reason : String) (values : List ℕ) (h : p.HasSums values)
    (hown : p.message.val ∉ values) : Ends p (.failed .invalidSolution .factored reason)
  /-- There is a solution, and the caller's own message belongs to it. -/
  | solved (values : List ℕ) (h : p.HasSums values) (hsorted : values.Pairwise (· ≤ ·))
    (hown : p.message.val ∈ values) : Ends p (.solved (values.map Hex.encode))

theorem ends_recover {finder : Finder} (hfinder : finder.Computes) (source : σ) {buffers : Value}
    (hbuffers : buffers.Receives p.modulus.bufferSize p.count) :
    p.Ends (p.recover finder source buffers).report := by
  have hcourse := course_recover hfinder source hbuffers
  generalize p.recover finder source buffers = run at hcourse ⊢
  cases hcourse with
  | uncomputed hes => exact .failed _ _
  | @unextracted es e s hes hrun =>
    cases e with
    | noSolution cause => exact .unsolvable _ (not_hasSums_of_extractRoots hfinder hes hrun)
    | internal cause => exact .failed _ _
    | arithmetic cause => exact .failed _ _
  | foreign hes hrun hfits hsums hown => exact .foreign _ _ hsums hown
  | @solved es roots s hes hrun hfits hsums hown =>
    exact .solved _ hsums roots.pairwise_values hown

/-- If no step failed then the elementary symmetric functions are known. -/
theorem exists_elementarySymmetric {finder : Finder} {source : σ} {buffers : Value}
    (h : (p.recover finder source buffers).report.status ≠ .internalError) :
    ∃ es, elementarySymmetric p.sums = .ok es := by
  cases hes : elementarySymmetric p.sums with
  | error e =>
    rw [recover_of_error hes] at h
    exact absurd rfl h
  | ok es => exact ⟨es, rfl⟩

end Problem

theorem Settings.finder_of_frobenius {s : Settings} (h : s.method = .frobenius) :
    s.finder = .frobenius s.attempts := by
  rw [finder, h]

theorem Settings.finder_of_exhaustive {s : Settings} (h : s.method = .exhaustive) :
    s.finder = .exhaustive s.limit := by
  rw [finder, h]

theorem Settings.computes_finder (s : Settings) : s.finder.Computes := by
  unfold finder
  cases s.method with
  | frobenius => trivial
  | exhaustive => trivial

theorem Report.values_solved (values : List ℕ) :
    (solved (values.map Hex.encode)).values = values := by
  rw [Report.values, solved, List.map_map]
  conv_rhs => rw [← List.map_id values]
  refine List.map_congr_left fun x _ => ?_
  rw [Function.comp_apply, Hex.decode_encode]
  rfl

/-- What a report says is decided by whether there is a solution. -/
theorem Problem.Ends.decides {p : Problem} {report : Report} (h : p.Ends report)
    (hprime : p.modulus.value.Prime) (hunique : ∀ M M', p.HasSums M → p.HasSums M' → M = M')
    (hstatus : report.status ≠ .internalError) :
    (report.status = .success ↔ ∃ M, p.HasSums M ∧ p.message.val ∈ M) ∧
      (report.status = .success → ∀ M, p.HasSums M → report.values = M.sort) ∧
      (report.status = .invalidSolution ∧ report.stage = .symmetric ↔ ∀ M, ¬ p.HasSums M) ∧
      (report.status = .invalidSolution ∧ report.stage = .factored ↔
        ∃ M, p.HasSums M ∧ p.message.val ∉ M) := by
  have honly : ∀ values : List ℕ, p.HasSums values → ∀ M, p.HasSums M ↔ M = values := by
    intro values hsums M
    constructor
    · intro hM
      exact hunique M values hM hsums
    · rintro rfl
      exact hsums
  cases h with
  | failed stage reason => exact absurd rfl hstatus
  | unsolvable reason hnone => simp [Report.failed, hnone hprime]
  | foreign reason values hsums hown => simp [Report.failed, honly values hsums, hown]
  | solved values hsums hsorted hown =>
    have hsort : (values : Multiset ℕ).sort = values := by
      rw [Multiset.coe_sort]
      exact List.mergeSort_eq_self _ hsorted
    rw [Report.values_solved]
    simp [Report.solved, honly values hsums, hown, hsort]

/-! ## Any modulus -/

/-- A multiset has one list of power sums. -/
theorem Problem.HasSums.sums_eq {p p' : Problem} {M : Multiset ℕ} (h : p.HasSums M)
    (h' : p'.HasSums M) (hm : p'.modulus = p.modulus) :
    p'.sums.map (·.val) = p.sums.map (·.val) := by
  obtain ⟨m, own, sums⟩ := p
  obtain ⟨m', own', sums'⟩ := p'
  obtain rfl : m' = m := hm
  have hlen : sums'.length = sums.length := h'.card.symm.trans h.card
  refine List.ext_getElem (by simpa using hlen) fun k hk' hk => ?_
  rw [List.length_map] at hk hk'
  rw [List.getElem_map, List.getElem_map]
  exact ((h'.sums k hk').symm.trans (h.sums k hk)).eq_of_lt_of_lt sums'[k].val_lt sums[k].val_lt

namespace Request

variable {σ : Type} [Source σ]

theorem recoverWith_eq (settings : Settings) (source : σ) {r : Request} {p : Problem}
    (hr : r.Poses p) :
    r.recoverWith settings source = p.recover settings.finder source r.buffers := by
  rw [recoverWith, validate_eq_ok_iff.mpr hr]

theorem course_recoverWith (settings : Settings) (source : σ) {r : Request} {p : Problem}
    (hr : r.Poses p) :
    p.Course settings.finder source r.buffers (r.recoverWith settings source) := by
  rw [recoverWith_eq settings source hr]
  exact Problem.course_recover settings.computes_finder source hr.buffers

theorem ends_recoverWith (settings : Settings) (source : σ) {r : Request} {p : Problem}
    (hr : r.Poses p) : p.Ends (r.recoverWith settings source).report := by
  rw [recoverWith_eq settings source hr]
  exact Problem.ends_recover settings.computes_finder source hr.buffers

/-- Roots that are extracted are reported and written out if the caller's own message is one of
them. -/
theorem recoverWith_of_extractRoots {settings : Settings} {source : σ} {r : Request} {p : Problem}
    (hr : r.Poses p) {es : List (Residue p.modulus)} (hes : elementarySymmetric p.sums = .ok es)
    {roots : RootMultiset}
    (hroots : ((extractRoots es settings.finder).run.run (p.session source)).1 = .ok roots)
    (hown : p.message.val ∈ roots.values) :
    (r.recoverWith settings source).report = .solved (roots.values.map Hex.encode) ∧
      (r.recoverWith settings source).buffers =
        (r.buffers.writeBuffers p.modulus (roots.values.map Hex.encode)).1 := by
  rcases hrun : (extractRoots es settings.finder).run.run (p.session source) with ⟨result, s⟩
  rw [hrun] at hroots
  obtain rfl : result = .ok roots := hroots
  obtain ⟨hfits, -⟩ := Problem.hasSums_of_extractRoots settings.computes_finder hes hrun
  rw [recoverWith_eq settings source hr, Problem.recover_of_ok hes, hrun, Problem.conclude,
    Problem.finish_of_mem hfits hr.buffers hown]
  exact ⟨rfl, rfl⟩

/-- A request that is answered with messages poses a problem. -/
theorem exists_poses {settings : Settings} {source : σ} {r : Request}
    (h : (r.recoverWith settings source).report.status = .success) : ∃ p, r.Poses p := by
  cases hvalid : r.validate with
  | error e =>
    rw [recoverWith, hvalid] at h
    cases h
  | ok p => exact ⟨p, validate_eq_ok_iff.mp hvalid⟩

theorem exists_values {settings : Settings} {source : σ} {r : Request} {p : Problem}
    (hr : r.Poses p) (h : (r.recoverWith settings source).report.status = .success) :
    ∃ values : List ℕ, (r.recoverWith settings source).report = .solved (values.map Hex.encode) ∧
      p.HasSums values ∧ values.Pairwise (· ≤ ·) ∧ p.message.val ∈ values := by
  have hends := ends_recoverWith settings source hr
  revert h hends
  generalize (r.recoverWith settings source).report = report
  intro h hends
  cases hends with
  | failed stage reason => cases h
  | unsolvable reason hnone => cases h
  | foreign reason values hsums hown => cases h
  | solved values hsums hsorted hown => exact ⟨values, rfl, hsums, hsorted, hown⟩

/-- What is reported as messages is a solution, whatever the modulus, and different sums never lead
to the same messages. -/
theorem recoverWith_sound (settings : Settings) (source : σ) (r : Request)
    (h : (r.recoverWith settings source).report.status = .success) :
    let report := (r.recoverWith settings source).report
    ∃ p : Problem, r.Poses p ∧ p.HasSums report.values ∧ report.values.Pairwise (· ≤ ·) ∧
      List.Forall₂ Hex.Writes report.messages report.values ∧ p.message.val ∈ report.values ∧
      ∀ (τ : Type) [Source τ] (settings' : Settings) (source' : τ) (r' : Request) (p' : Problem),
        (r'.recoverWith settings' source').report.status = .success → r'.Poses p' →
        p'.modulus = p.modulus → p'.sums.map (·.val) ≠ p.sums.map (·.val) →
        (r'.recoverWith settings' source').report.messages ≠ report.messages := by
  intro report
  obtain ⟨p, hr⟩ := exists_poses h
  obtain ⟨values, hreport, hsums, hsorted, hown⟩ := exists_values hr h
  have hvalues : report.values = values := by
    show (r.recoverWith settings source).report.values = values
    rw [hreport, Report.values_solved]
  refine ⟨p, hr, ?_⟩
  rw [hvalues]
  refine ⟨hsums, hsorted, ?_, hown, ?_⟩
  · show List.Forall₂ Hex.Writes (r.recoverWith settings source).report.messages values
    rw [hreport, Report.solved, List.forall₂_map_left_iff, List.forall₂_same]
    intro x _
    exact Hex.writes_encode x
  · intro τ _ settings' source' r' p' h' hr' hm hne heq
    obtain ⟨values', hreport', hsums', -, -⟩ := exists_values hr' h'
    have hvalues' : values' = values := by
      rw [← Report.values_solved values', ← hreport', ← hvalues, Report.values, Report.values, heq]
    rw [hvalues'] at hsums'
    exact hne (hsums.sums_eq hsums' hm)

/-- Modulo thirty-five, where there are zero divisors, three and three are found by their sums. -/
theorem recoverWith_sound_thirtyFive :
    let run := (ofIntegers 35 3 [6, 18]).recoverWith
      ⟨"exhaustive", .exhaustive, 64, 35, none, by decide, by decide⟩ (SplitMix.ofSeed none)
    run.report.status = .success ∧ run.report.messages = ["3", "3"] ∧
      ∃ p : Problem, (ofIntegers 35 3 [6, 18]).Poses p ∧ p.HasSums run.report.values := by
  intro run
  have hstatus : run.report.status = .success := by decide +kernel
  have hmessages : run.report.messages = ["3", "3"] := by decide +kernel
  obtain ⟨p, hr, hsums, -⟩ := recoverWith_sound _ _ _ hstatus
  exact ⟨hstatus, hmessages, p, hr, hsums⟩

/-! ## Prime moduli -/

/-- Over a prime modulus the status of a recovery in which no step failed tells whether there is a
multiset with the power sums, of which there is one at most, and whether the caller's own message
belongs to it. The power sums of messages are never refused. -/
theorem recoverWith_decides (settings : Settings) (source : σ) (r : Request) (p : Problem)
    (hr : r.Poses p) (hprime : p.modulus.value.Prime) :
    let report := (r.recoverWith settings source).report
    (report.status ≠ .internalError →
      (report.status = .success ↔ ∃ M, p.HasSums M ∧ p.message.val ∈ M) ∧
      (report.status = .success → ∀ M, p.HasSums M → report.values = M.sort) ∧
      (report.status = .invalidSolution ∧ report.stage = .symmetric ↔ ∀ M, ¬ p.HasSums M) ∧
      (report.status = .invalidSolution ∧ report.stage = .factored ↔
        ∃ M, p.HasSums M ∧ p.message.val ∉ M) ∧
      ∀ M M', p.HasSums M → p.HasSums M' → M = M') ∧
    ∀ ms : List (Residue p.modulus), p.message ∈ ms → p.sums = powerSums ms ms.length →
      report.status ≠ .invalidSolution ∧ (report.status ≠ .internalError →
        report.status = .success ∧ report.values = (ms.map (·.val)).mergeSort) := by
  intro report
  have : Fact p.modulus.value.Prime := ⟨hprime⟩
  have hends : p.Ends report := ends_recoverWith settings source hr
  have hunique : report.status ≠ .internalError →
      ∀ M M', p.HasSums M → p.HasSums M' → M = M' := by
    intro hstatus M M' hM hM'
    have heq : report = (p.recover settings.finder source r.buffers).report := by
      rw [← recoverWith_eq settings source hr]
    rw [heq] at hstatus
    obtain ⟨es, hes⟩ := Problem.exists_elementarySymmetric hstatus
    exact hM.unique hes hM'
  refine ⟨fun hstatus => ?_, fun ms hown hms => ?_⟩
  · obtain ⟨hsuccess, hvalues, hsymmetric, hfactored⟩ :=
      hends.decides hprime (hunique hstatus) hstatus
    exact ⟨hsuccess, hvalues, hsymmetric, hfactored, hunique hstatus⟩
  · have hM := Problem.hasSums_powerSums hms
    by_cases hstatus : report.status = .internalError
    · rw [hstatus]
      exact ⟨by decide, fun hne => absurd rfl hne⟩
    · obtain ⟨hsuccess, hvalues, -, -⟩ := hends.decides hprime (hunique hstatus) hstatus
      have hstatus' := hsuccess.mpr ⟨_, hM, Multiset.mem_coe.mpr (List.mem_map_of_mem hown)⟩
      refine ⟨by rw [hstatus']; decide, fun _ => ⟨hstatus', ?_⟩⟩
      rw [hvalues hstatus' _ hM, Multiset.coe_sort]

/-- Modulo seven, one and three are the only messages with the sums four and three. The Frobenius
map finds them by a split. -/
theorem recoverWith_decides_seven :
    let p : Problem := ⟨⟨7, by decide⟩, ⟨1, by decide⟩, [⟨4, by decide⟩, ⟨3, by decide⟩]⟩
    let report := ((ofIntegers 7 1 [4, 3]).recoverWith .default (SplitMix.ofSeed none)).report
    (ofIntegers 7 1 [4, 3]).Poses p ∧ Nat.Prime 7 ∧ report.status ≠ .internalError ∧
      report.values = [1, 3] ∧ ∀ M, p.HasSums M → M = {1, 3} := by
  intro p report
  have hr : (ofIntegers 7 1 [4, 3]).Poses p :=
    poses_ofIntegers (p := p) (by decide) (by decide)
  have hprime : Nat.Prime 7 := by norm_num
  let es : List (Residue p.modulus) := [⟨4, by decide⟩, ⟨3, by decide⟩]
  have hes : elementarySymmetric p.sums = .ok es := by decide +kernel
  have hroots : ((extractRoots es Settings.default.finder).run.run
      (p.session (SplitMix.ofSeed none))).1 = .ok ⟨[(1, 1), (3, 1)]⟩ := by
    simp only [extractRoots, Finder.rootsWithMultiplicity, Finder.countedRoots,
      List.mergeSort_eq_insertionSort]
    decide +kernel
  have hlisted : RootMultiset.values ⟨[(1, 1), (3, 1)]⟩ = [1, 3] :=
    RootMultiset.values_of_pairwise (by decide)
  have hreport : report = .solved ([1, 3].map Hex.encode) := by
    rw [← hlisted]
    exact (recoverWith_of_extractRoots hr hes hroots (by rw [hlisted]; decide)).1
  have hstatus : report.status ≠ .internalError := by
    rw [hreport]
    decide
  have hsums : p.sums = powerSums [p.message, ⟨3, by decide⟩] 2 := by decide
  obtain ⟨hdecides, hmessages⟩ :=
    recoverWith_decides .default (SplitMix.ofSeed none) _ p hr hprime
  obtain ⟨-, hsuccess⟩ := hmessages [p.message, ⟨3, by decide⟩] List.mem_cons_self hsums
  obtain ⟨-, hsort, -⟩ := hdecides hstatus
  have hvalues : report.values = [1, 3] := by rw [hreport, Report.values_solved]
  refine ⟨hr, hprime, hstatus, hvalues, fun M hM => ?_⟩
  have hlist := hsort (hsuccess hstatus).1 M hM
  rw [show report.values = [1, 3] from hvalues] at hlist
  rw [← M.sort_eq (· ≤ ·), ← hlist]
  rfl

end Request

end MultisetRecovery

import MultisetRecovery.Proofs.Shifts
import MultisetRecovery.Proofs.Verdict
import MultisetRecovery.Random.Tape

/-!
# What can go wrong over a prime modulus

Over a prime modulus all divisors that a recovery meets are invertible, and every root that it finds
is one. Three things are left that can stop it (`Problem.Breakdown`): there are as many messages as
residues, so that Newton's identities divide by zero; there are more residues than may be tried; or
the shifts for a split are used up, which then shows in the journal. Each of them does stop it.
-/

namespace MultisetRecovery

variable {m : Modulus} {σ : Type} [Source σ]

theorem Settings.tells_extractRoots (settings : Settings) (es : List (Residue m)) :
    (extractRoots es settings.finder : Search σ _).Tells
      (Frobenius.Accounts settings.attempts) := by
  refine MultisetRecovery.tells_extractRoots (fun g => ?_) es
  cases hmethod : settings.method with
  | frobenius =>
    rw [finder_of_frobenius hmethod]
    exact Finder.tells_distinctRoots_frobenius _ g
  | exhaustive =>
    rw [finder_of_exhaustive hmethod]
    exact Finder.tells_distinctRoots_exhaustive _ g

/-- With too many residues to try nothing is extracted. -/
theorem ensures_extractRoots_fieldTooLarge {limit : ℤ} (hlimit : limit < m.value)
    (es : List (Residue m)) :
    (extractRoots es (.exhaustive limit) : Search σ _).Ensures (fun _ => False)
      (· = .internal (.fieldTooLarge m limit)) := by
  have hfound : ((Finder.exhaustive limit).rootsWithMultiplicity (Poly.ofElementary es) :
      Search σ _).Ensures _ _ :=
    Finder.ensures_fieldTooLarge hlimit (Poly.monic_eq_ok (monic_ofElementary es))
  refine (ensures_extractRoots_of_found hfound).mono (fun _ => And.left) ?_
  rintro e (he | ⟨roots, hfalse, -⟩)
  · exact he
  · exact hfalse.elim

namespace Problem

variable {p : Problem} {settings : Settings} {source : σ} {buffers : Value} {run : Recovery}
  {es : List (Residue p.modulus)} {r : Except Failure RootMultiset} {s : Session σ}

/-! ## The journal of a recovery -/

theorem journal_of_run
    (hrun : (extractRoots es settings.finder).run.run (p.session source) = (r, s)) :
    ∃ events, s.journal =
        events ++ [.symmetricKnown p.count, .validated p.count p.modulus.bitLength] ∧
      Frobenius.Accounts settings.attempts r events := by
  obtain ⟨events, hjournal, haccounts⟩ := settings.tells_extractRoots es (p.session source)
  rw [hrun] at hjournal haccounts
  exact ⟨events, hjournal, haccounts⟩

/-- If the shifts of a split are used up then the extraction has failed for that reason. -/
theorem exhausted_of_usedUp
    (hrun : (extractRoots es settings.finder).run.run (p.session source) = (r, s)) {last : Event}
    (hlast : ∀ number shift, last ≠ .splitMissed number shift)
    (hused : Frobenius.UsedUp settings.attempts.toNat (last :: s.journal).reverse) :
    ∃ e, r = .error e ∧ Frobenius.Exhausted settings.attempts e := by
  obtain ⟨events, hjournal, haccounts⟩ := journal_of_run hrun
  have hpos := settings.one_le_attempts
  obtain ⟨shift, hmem⟩ := hused.exists_mem (by omega)
  rw [List.mem_reverse, hjournal] at hmem
  have hevents : .splitMissed settings.attempts.toNat shift ∈ events := by
    simpa [(hlast _ _).symm] using hmem
  exact haccounts.exhausted shift hevents

theorem usedUp_of_exhausted {e : Failure}
    (hrun : (extractRoots es settings.finder).run.run (p.session source) = (.error e, s))
    (he : Frobenius.Exhausted settings.attempts e) (last : Event) :
    Frobenius.UsedUp settings.attempts.toNat (last :: s.journal).reverse := by
  obtain ⟨events, hjournal, haccounts⟩ := journal_of_run hrun
  obtain ⟨shifts, hlen, hinfix⟩ := haccounts.usedUp e rfl he
  refine ⟨shifts, hlen, hinfix.trans ?_⟩
  rw [hjournal, List.reverse_infix]
  exact ((List.prefix_append _ _).isInfix).trans (List.suffix_cons _ _).isInfix

/-- The steps of a recovery over a prime modulus that can fail, each with the stage before it, and
why they do. -/
inductive Breakdown (p : Problem) (settings : Settings) (journal : List Event) :
    Stage → InternalError → Prop where
  /-- There are as many messages as residues, and one of their numbers is zero. -/
  | count (hcount : p.count = p.modulus.value) : Breakdown p settings journal .validated
    (.countNotInvertible p.modulus.value p.modulus (.invertZeroAt (p.modulus.value - 1)))
  /-- There are too many residues to try. -/
  | limit (hcount : p.count < p.modulus.value) (hmethod : settings.method = .exhaustive)
    (hlimit : settings.limit < p.modulus.value) :
    Breakdown p settings journal .symmetric (.fieldTooLarge p.modulus settings.limit)
  /-- The shifts for a split are used up. -/
  | attempts (hcount : p.count < p.modulus.value) (hmethod : settings.method = .frobenius)
    (hused : Frobenius.UsedUp settings.attempts.toNat journal) (degree : ℤ) :
    Breakdown p settings journal .symmetric (.splitExhausted degree settings.attempts)

section Prime

variable [Fact p.modulus.value.Prime]

theorem elementarySymmetric_eq_ok_iff (hle : p.count ≤ p.modulus.value) :
    (∃ es, elementarySymmetric p.sums = .ok es) ↔ p.count < p.modulus.value := by
  constructor
  · rintro ⟨es, hes⟩
    refine hle.lt_of_ne fun hcount => ?_
    rw [elementarySymmetric_of_length_eq hcount] at hes
    cases hes
  · exact exists_elementarySymmetric_of_lt

/-- An extraction that fails has broken down, or has nothing to extract. -/
theorem breakdown_of_run (hcount : p.count < p.modulus.value) {e : Failure}
    (hrun : (extractRoots es settings.finder).run.run (p.session source) = (.error e, s))
    (last : Event) :
    (∃ cause, e = .noSolution cause) ∨ ∃ cause, e = .internal cause ∧
      p.Breakdown settings (last :: s.journal).reverse .symmetric cause := by
  have hextract : (extractRoots es settings.finder : Search σ _).Ensures _ _ :=
    ensures_extraction settings.computes_finder es
  rcases hextract.of_run_error hrun with hbreaks | hnone
  · right
    cases hmethod : settings.method with
    | frobenius =>
      rw [Settings.finder_of_frobenius hmethod] at hbreaks
      obtain ⟨degree, rfl⟩ := hbreaks
      have hused := usedUp_of_exhausted hrun ⟨degree, rfl⟩ last
      exact ⟨_, rfl, .attempts hcount hmethod hused degree⟩
    | exhaustive =>
      rw [Settings.finder_of_exhaustive hmethod] at hbreaks
      obtain ⟨hlimit, rfl⟩ := hbreaks
      exact ⟨_, rfl, .limit hcount hmethod hlimit⟩
  · exact .inl (exists_noSolution_of_extraction hnone)

theorem Course.exists_breakdown (h : p.Course settings.finder source buffers run)
    (hle : p.count ≤ p.modulus.value) (hstatus : run.report.status = .internalError) :
    ∃ stage cause journal, p.Breakdown settings run.journal stage cause ∧
      run = failed buffers journal stage (.internal cause) := by
  cases h with
  | @uncomputed e hes =>
    -- Fewer numbers than residues are all invertible.
    have hcount : p.count = p.modulus.value := by
      by_contra hne
      obtain ⟨es, hes'⟩ := (elementarySymmetric_eq_ok_iff hle).mpr (by omega)
      cases hes.symm.trans hes'
    cases hes.symm.trans (elementarySymmetric_of_length_eq hcount)
    exact ⟨_, _, _, .count hcount, rfl⟩
  | @unextracted es e s hes hrun =>
    have hcount := (elementarySymmetric_eq_ok_iff hle).mp ⟨es, hes⟩
    rcases breakdown_of_run hcount hrun (e.event .symmetric) with ⟨cause, rfl⟩ | ⟨cause, rfl, hb⟩
    · cases hstatus
    · exact ⟨_, _, _, hb, rfl⟩
  | foreign hes hrun hfits hsums hown => cases hstatus
  | solved hes hrun hfits hsums hown => cases hstatus

end Prime

/-- After a breakdown nothing is extracted, over any modulus. -/
theorem exists_internal_of_breakdown (hes : elementarySymmetric p.sums = .ok es)
    (hrun : (extractRoots es settings.finder).run.run (p.session source) = (r, s)) {last : Event}
    (hlast : ∀ number shift, last ≠ .splitMissed number shift) {stage : Stage}
    {cause : InternalError}
    (hb : p.Breakdown settings (last :: s.journal).reverse stage cause) :
    ∃ cause, r = .error (.internal cause) := by
  cases hb with
  | count hcount =>
    rw [elementarySymmetric_of_length_eq hcount] at hes
    cases hes
  | limit hcount hmethod hlimit =>
    have hextract : (extractRoots es (.exhaustive settings.limit) : Search σ _).Ensures _ _ :=
      ensures_extractRoots_fieldTooLarge hlimit es
    rw [Settings.finder_of_exhaustive hmethod] at hrun
    cases r with
    | error e => exact ⟨_, by rw [hextract.of_run_error hrun]⟩
    | ok roots => exact (hextract.of_run hrun).elim
  | attempts hcount hmethod hused degree =>
    obtain ⟨_, rfl, ⟨d, rfl⟩⟩ := exhausted_of_usedUp hrun hlast hused
    exact ⟨_, rfl⟩

theorem Course.internalError_of_breakdown (h : p.Course settings.finder source buffers run)
    {stage : Stage} {cause : InternalError} (hb : p.Breakdown settings run.journal stage cause) :
    run.report.status = .internalError := by
  cases h with
  | uncomputed hes => rfl
  | @unextracted es e s hes hrun =>
    -- The last entry tells of the failure, so it is not one of the misses.
    have hlast : ∀ number shift, e.event .symmetric ≠ .splitMissed number shift := by
      cases e <;> simp [Failure.event]
    obtain ⟨cause, he⟩ := exists_internal_of_breakdown hes hrun hlast hb
    cases he
    rfl
  | foreign hes hrun hfits hsums hown =>
    obtain ⟨cause, he⟩ := exists_internal_of_breakdown hes hrun (by simp [Failure.event]) hb
    cases he
  | solved hes hrun hfits hsums hown =>
    obtain ⟨cause, he⟩ := exists_internal_of_breakdown hes hrun (by simp) hb
    cases he

end Problem

namespace Request

end Request

end MultisetRecovery

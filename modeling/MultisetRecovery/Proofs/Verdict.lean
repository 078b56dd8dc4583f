import MultisetRecovery.Proofs.Recovery

/-!
# Settings and random numbers never change an answer

Over a prime modulus the roots of a polynomial with their multiplicities are one root multiset. An
extraction that does not break down comes to the answer that this multiset gives (`extraction`), by
whatever method and whatever numbers were drawn, and all that is reported afterwards depends on
nothing else. So two recoveries of one request agree, unless a step of one of them failed.
-/

namespace MultisetRecovery

variable {m : Modulus} {σ τ : Type}

/-- What there is to extract: the roots of the polynomial, if nothing is wrong with them. -/
noncomputable def extraction (es : List (Residue m)) : Except Failure RootMultiset :=
  match (Poly.ofElementary es).rootMultiset.defect m es.length with
  | none => .ok (Poly.ofElementary es).rootMultiset
  | some e => .error e

section Prime

variable [Fact m.value.Prime]

/-- Only the number of the roots can be wrong, and it is part of the answer then. -/
theorem extraction_eq (es : List (Residue m)) :
    extraction es = if (Poly.ofElementary es).rootMultiset.total = es.length
      then .ok (Poly.ofElementary es).rootMultiset
      else .error (.noSolution
        (.doesNotSplit (Poly.ofElementary es).rootMultiset.total es.length)) := by
  have hne := (monic_ofElementary es).ne_zero
  rw [extraction, Poly.defect_rootMultiset hne (natDegree_ofElementary es)]
  by_cases htotal : (Poly.ofElementary es).rootMultiset.total = es.length
  · rw [if_pos htotal, if_pos htotal]
  · rw [if_neg htotal, if_neg htotal]

theorem exists_noSolution_of_extraction {es : List (Residue m)} {e : Failure}
    (h : extraction es = .error e) : ∃ cause, e = .noSolution cause := by
  rw [extraction_eq] at h
  split at h
  · cases h
  · exact ⟨_, (Except.error.inj h).symm⟩

variable [Source σ] {finder : Finder}

/-- An extraction comes to the one answer that there is unless the finder breaks down. -/
theorem ensures_extraction (h : finder.Computes) (es : List (Residue m)) :
    (extractRoots es finder : Search σ _).Ensures (fun roots => extraction es = .ok roots)
      (fun e => finder.Breaks m e ∨ extraction es = .error e) := by
  have hne := (monic_ofElementary es).ne_zero
  have hfound : (finder.rootsWithMultiplicity (Poly.ofElementary es) : Search σ _).Ensures _ _ :=
    Finder.ensures_breaks h hne
  refine (ensures_extractRoots_of_found hfound).mono ?_ ?_
  · rintro roots ⟨rfl, hnone⟩
    rw [extraction, hnone]
  · rintro e (he | ⟨roots, rfl, hsome⟩)
    · exact .inl he
    · right
      rw [extraction, hsome]

end Prime

namespace Problem

variable {p : Problem}

/-! ## What is reported does not depend on the session -/

theorem finish_congr (buffers : Value) (journal journal' : List Event) (roots : RootMultiset) :
    (p.finish buffers journal roots).report = (p.finish buffers journal' roots).report ∧
      (p.finish buffers journal roots).buffers = (p.finish buffers journal' roots).buffers := by
  unfold finish
  cases roots.assemble p.message.val p.count with
  | error e => exact ⟨rfl, rfl⟩
  | ok messages =>
    simp only
    rcases buffers.writeBuffers p.modulus messages with ⟨written, _ | e⟩
    · exact ⟨rfl, rfl⟩
    · exact ⟨rfl, rfl⟩

theorem conclude_congr (buffers : Value) (result : Except Failure RootMultiset) (s : Session σ)
    (t : Session τ) :
    (p.conclude buffers (result, s)).report = (p.conclude buffers (result, t)).report ∧
      (p.conclude buffers (result, s)).buffers = (p.conclude buffers (result, t)).buffers := by
  cases result with
  | error e => exact ⟨rfl, rfl⟩
  | ok roots => exact finish_congr buffers s.journal t.journal roots

/-! ## Two recoveries -/

variable [Source σ] [Source τ]

/-- If no step fails then what is extracted is what there is to extract. -/
theorem recover_eq_conclude [Fact p.modulus.value.Prime] {finder : Finder}
    (hfinder : finder.Computes) {source : σ} {buffers : Value}
    {es : List (Residue p.modulus)} (hes : elementarySymmetric p.sums = .ok es)
    (h : (p.recover finder source buffers).report.status ≠ .internalError) :
    ∃ s : Session σ, p.recover finder source buffers = p.conclude buffers (extraction es, s) := by
  have hextract : (extractRoots es finder : Search σ _).Ensures _ _ :=
    ensures_extraction hfinder es
  rw [recover_of_ok hes] at h ⊢
  rcases hrun : (extractRoots es finder).run.run (p.session source) with ⟨e | roots, s⟩
  · rw [hrun] at h
    refine ⟨s, ?_⟩
    rcases hextract.of_run_error hrun with hbreaks | herror
    · obtain ⟨cause, rfl⟩ := hbreaks.exists_internal
      exact absurd rfl h
    · rw [herror]
  · exact ⟨s, by rw [hextract.of_run hrun]⟩

theorem recover_congr [Fact p.modulus.value.Prime] {finder finder' : Finder}
    (hfinder : finder.Computes) (hfinder' : finder'.Computes) {source : σ} {source' : τ}
    {buffers : Value} (h : (p.recover finder source buffers).report.status ≠ .internalError)
    (h' : (p.recover finder' source' buffers).report.status ≠ .internalError) :
    (p.recover finder source buffers).report = (p.recover finder' source' buffers).report ∧
      (p.recover finder source buffers).buffers = (p.recover finder' source' buffers).buffers := by
  obtain ⟨es, hes⟩ := exists_elementarySymmetric h
  obtain ⟨s, hs⟩ := recover_eq_conclude hfinder hes h
  obtain ⟨s', hs'⟩ := recover_eq_conclude hfinder' hes h'
  rw [hs, hs']
  exact conclude_congr buffers (extraction es) s s'

end Problem

namespace Request

variable [Source σ] [Source τ]

/-- Two recoveries of one request over a prime modulus, or of a malformed one, say the same and
leave the same in the buffers, if no step of either failed. -/
theorem recoverWith_congr (settings settings' : Settings) (source : σ) (source' : τ) (r : Request)
    (hprime : ∀ p : Problem, r.Poses p → p.modulus.value.Prime)
    (h : (r.recoverWith settings source).report.status ≠ .internalError)
    (h' : (r.recoverWith settings' source').report.status ≠ .internalError) :
    (r.recoverWith settings source).report = (r.recoverWith settings' source').report ∧
      (r.recoverWith settings source).buffers = (r.recoverWith settings' source').buffers := by
  cases hvalid : r.validate with
  | error e =>
    unfold recoverWith
    rw [hvalid]
    exact ⟨rfl, rfl⟩
  | ok p =>
    have hr := validate_eq_ok_iff.mp hvalid
    have : Fact p.modulus.value.Prime := ⟨hprime p hr⟩
    rw [recoverWith_eq settings source hr] at h ⊢
    rw [recoverWith_eq settings' source' hr] at h' ⊢
    exact Problem.recover_congr settings.computes_finder settings'.computes_finder h h'

/-- Modulo seven, `(x - 1) * (x - 3) * (x ^ 2 + 1)` is found to have two roots of four by trying
every residue, so the Frobenius map, which has to split the linear factors, finds the same. -/
theorem recoverWith_congr_seven :
    let r := ofIntegers 7 1 [4, 1, 0, 0]
    let run := r.recoverWith .default (SplitMix.ofSeed (some 5))
    let run' := r.recoverWith ⟨"exhaustive", .exhaustive, 64, 7, none, by decide, by decide⟩
      (SplitMix.ofSeed none)
    (∀ p : Problem, r.Poses p → p.modulus.value.Prime) ∧
      run.report.status ≠ .internalError ∧ run'.report.status ≠ .internalError ∧
      run.report.reason = some "polynomial does not split over F_p: 2 of 4 roots found" := by
  intro r run run'
  have hprime : ∀ p : Problem, r.Poses p → p.modulus.value.Prime := by
    let p : Problem := ⟨⟨7, by decide⟩, ⟨1, by decide⟩,
      [⟨4, by decide⟩, ⟨1, by decide⟩, ⟨0, by decide⟩, ⟨0, by decide⟩]⟩
    have hposes : r.Poses p := poses_ofIntegers (p := p) (by decide) (by decide)
    intro p' hr
    obtain rfl : p' = p := hr.unique hposes
    show Nat.Prime 7
    norm_num
  have hstatus : run.report.status ≠ .internalError := by
    simp only [run, recoverWith, Problem.recover, extractRoots, Finder.rootsWithMultiplicity,
      Finder.countedRoots, List.mergeSort_eq_insertionSort]
    decide +kernel
  obtain ⟨hstatus', hreason⟩ : run'.report.status ≠ .internalError ∧ run'.report.reason =
      some "polynomial does not split over F_p: 2 of 4 roots found" := by
    simp only [run', recoverWith, Problem.recover, extractRoots, Finder.rootsWithMultiplicity,
      Finder.countedRoots, List.mergeSort_eq_insertionSort]
    decide +kernel
  obtain ⟨hreport, -⟩ := recoverWith_congr _ _ _ _ r hprime hstatus hstatus'
  refine ⟨hprime, hstatus, hstatus', ?_⟩
  rw [show run.report = run'.report from hreport]
  exact hreason

end Request

end MultisetRecovery

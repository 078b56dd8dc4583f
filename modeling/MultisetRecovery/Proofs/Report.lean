import MultisetRecovery.Proofs.Recovery

/-!
# Every report is consistent

Every request is answered with a report, whatever its values are and whatever the modulus. Status,
stage, reason and messages of the report fit together: after each stage some failures are possible
and others are not (`Stage.failures`). After the checks have passed, nothing is found fault with any
more: neither the number of the messages nor the buffers.
-/

namespace MultisetRecovery

/-- The statuses of the failures that are possible after a stage. -/
def Stage.failures : Stage → List Status
  | start => [.inputError]
  | validated => [.internalError]
  | symmetric => [.internalError, .invalidSolution]
  | factored => [.invalidSolution]
  | assembled => []

namespace Report

/-- How status, stage, reason and messages of a report fit together. -/
structure Consistent (report : Report) : Prop where
  /-- A recovery succeeds with its last stage. -/
  success : report.status = .success ↔ report.stage = .assembled
  /-- There is a reason for everything else. -/
  reason : report.stage = .assembled ↔ report.reason = none
  /-- There are messages exactly if there is no reason why not. -/
  messages : report.reason = none ↔ report.messages ≠ []
  /-- A malformed request is all that can stop a recovery in its first stage, and only there. -/
  inputError : report.status = .inputError ↔ report.stage = .start
  /-- That there is no solution shows at the roots. -/
  invalidSolution : report.status = .invalidSolution →
    report.stage = .symmetric ∨ report.stage = .factored
  /-- Once the roots are known no step fails. -/
  factored : report.stage = .factored → report.status = .invalidSolution
  /-- Steps fail only on the way to the roots. -/
  internalError : report.status = .internalError →
    report.stage = .validated ∨ report.stage = .symmetric

theorem consistent_failed {status : Status} {stage : Stage} (h : status ∈ stage.failures)
    (reason : String) : (failed status stage reason).Consistent := by
  unfold failed
  cases stage with
  | start =>
    obtain rfl := List.mem_singleton.mp h
    constructor <;> simp
  | validated =>
    obtain rfl := List.mem_singleton.mp h
    constructor <;> simp
  | symmetric =>
    -- Both kinds of failure are possible here: a step can fail, or the polynomial need not split.
    have hstatus : status = .internalError ∨ status = .invalidSolution := by
      simpa [Stage.failures] using h
    rcases hstatus with rfl | rfl
    · constructor <;> simp
    · constructor <;> simp
  | factored =>
    obtain rfl := List.mem_singleton.mp h
    constructor <;> simp
  | assembled => cases h

theorem consistent_solved {messages : List String} (h : messages ≠ []) :
    (solved messages).Consistent := by
  unfold solved
  constructor <;> simp [h]

theorem Consistent.messages_eq_nil {report : Report} (h : report.Consistent)
    (hstatus : report.status ≠ .success) : report.messages = [] := by
  by_contra hne
  exact hstatus (h.success.mpr (h.reason.mpr (h.messages.mpr hne)))

end Report

theorem Failure.status_mem_failures (e : Failure) : e.status ∈ Stage.symmetric.failures := by
  cases e with
  | noSolution cause => exact List.mem_cons_of_mem _ List.mem_cons_self
  | internal cause => exact List.mem_cons_self
  | arithmetic cause => exact List.mem_cons_self

namespace Problem

variable {p : Problem} {σ : Type} [Source σ] {finder : Finder} {source : σ} {buffers : Value}
  {run : Recovery}

theorem Course.consistent (h : p.Course finder source buffers run) (hcount : 0 < p.count) :
    run.report.Consistent := by
  cases h with
  | uncomputed hes => exact Report.consistent_failed List.mem_cons_self _
  | @unextracted es e s hes hrun => exact Report.consistent_failed e.status_mem_failures _
  | foreign hes hrun hfits hsums hown => exact Report.consistent_failed List.mem_cons_self _
  | @solved es roots s hes hrun hfits hsums hown =>
    refine Report.consistent_solved fun hnil => ?_
    have hlen := congrArg List.length hnil
    rw [List.length_map, hfits.length_values] at hlen
    exact hcount.ne' hlen

theorem Course.status_ne_inputError (h : p.Course finder source buffers run) :
    run.report.status ≠ .inputError := by
  intro hstatus
  cases h with
  | uncomputed hes => cases hstatus
  | @unextracted es e s hes hrun => cases e <;> cases hstatus
  | foreign hes hrun hfits hsums hown => cases hstatus
  | solved hes hrun hfits hsums hown => cases hstatus

theorem Course.of_factored (h : p.Course finder source buffers run)
    (hstage : run.report.stage = .factored) :
    ∃ es roots, elementarySymmetric p.sums = .ok es ∧
      ((extractRoots es finder).run.run (p.session source)).1 = .ok roots ∧
      (p.message.val : ℤ) ∉ roots.entries.map (·.1) ∧
      run.report.reason = some (NoSolution.ownMessageMissing p.message.val).message := by
  cases h with
  | uncomputed hes => cases hstage
  | unextracted hes hrun => cases hstage
  | @foreign es roots s hes hrun hfits hsums hown =>
    rw [hfits.mem_values_iff_mem_keys] at hown
    exact ⟨es, roots, hes, congrArg Prod.fst hrun, hown, rfl⟩
  | solved hes hrun hfits hsums hown => cases hstage

end Problem

namespace Request

theorem consistent_report {σ : Type} [Source σ] (settings : Settings) (source : σ) (r : Request) :
    (r.recoverWith settings source).report.Consistent := by
  cases hvalid : r.validate with
  | error e =>
    rw [recoverWith, hvalid]
    exact Report.consistent_failed List.mem_cons_self _
  | ok p =>
    have hr := validate_eq_ok_iff.mp hvalid
    have htwo := hr.two_le
    exact (course_recoverWith settings source hr).consistent (by omega)

/-- Every request is answered, and its report is consistent. It is rejected exactly if it poses no
problem. A recovery that stops when the roots are known has not found the caller's own message among
them. -/
theorem recoverWith_consistent {σ : Type} [Source σ] (settings : Settings) (source : σ)
    (r : Request) :
    let report := (r.recoverWith settings source).report
    report.Consistent ∧ (report.status = .inputError ↔ ∀ p, ¬ r.Poses p) ∧
    (report.stage = .factored →
      ∃ (p : Problem) (es : List (Residue p.modulus)) (roots : RootMultiset), r.Poses p ∧
        elementarySymmetric p.sums = .ok es ∧
        ((extractRoots es settings.finder).run.run (p.session source)).1 = .ok roots ∧
        (p.message.val : ℤ) ∉ roots.entries.map (·.1) ∧
        report.reason = some (NoSolution.ownMessageMissing p.message.val).message) := by
  intro report
  cases hvalid : r.validate with
  | error e =>
    have hreport : report = .failed .inputError .start e.message := by
      show (r.recoverWith settings source).report = _
      rw [recoverWith, hvalid]
    have hnone : ∀ p, ¬ r.Poses p := by
      intro p hr
      cases hvalid.symm.trans (validate_eq_ok_iff.mpr hr)
    rw [hreport]
    refine ⟨Report.consistent_failed List.mem_cons_self _, iff_of_true rfl hnone, fun hstage => ?_⟩
    cases hstage
  | ok p =>
    have hr := validate_eq_ok_iff.mp hvalid
    have hcourse := course_recoverWith settings source hr
    have htwo := hr.two_le
    have hposed : ¬ ∀ p, ¬ r.Poses p := fun hnone => hnone p hr
    refine ⟨hcourse.consistent (by omega), iff_of_false hcourse.status_ne_inputError hposed,
      fun hstage => ?_⟩
    obtain ⟨es, roots, hes, hrun, hown, hreason⟩ := hcourse.of_factored hstage
    exact ⟨p, es, roots, hr, hes, hrun, hown, hreason⟩

end Request

end MultisetRecovery

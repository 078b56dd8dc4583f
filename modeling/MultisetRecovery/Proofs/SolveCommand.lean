import Mathlib
import MultisetRecovery.CommandLine.Execution
import MultisetRecovery.Proofs.InstanceText
import MultisetRecovery.Proofs.Report

/-!
# What the command that solves tells

The command ends with the code of a status and shows on its standard output nothing but messages.
Too few values in the text are the code of a malformed request, and for any others it is the status
of their recovery (`solveFile_reports`). That holds if one shift at least is to be tried for each
split. With fewer there are no settings, and although the command line takes any number, the command
then ends without a code.
-/

namespace MultisetRecovery

/-! ## Settings and codes -/

theorem Method.ofName?_name (method : Method) : ofName? method.name = some method := by
  cases method with
  | frobenius => rfl
  | exhaustive => rfl

namespace Settings

variable {name : String} {method : Method} {attempts limit : ℤ} {seed : Option ℤ}

theorem make_of_le (hattempts : 1 ≤ attempts) (hlimit : 2 ≤ limit) :
    make name method.name attempts limit seed =
      .ok ⟨name, method, attempts, limit, seed, hattempts, hlimit⟩ := by
  simp only [make, Method.ofName?_name, dif_pos hattempts, dif_pos hlimit]

theorem make_of_lt (hattempts : attempts < 1) :
    make name method.name attempts limit seed = .error .noAttempts := by
  simp only [make, Method.ofName?_name, dif_neg (not_le.mpr hattempts)]

end Settings

theorem Status.code_mem (status : Status) : status.code ∈ [0, 1, 100, 101] := by
  cases status <;> decide

namespace CommandLine

/-! ## Output -/

/-- The output shows a report: the status is the exit code, and the messages are the lines of the
standard output, in ascending order. -/
structure Output.Shows (o : Output) (report : Report) : Prop where
  exit : o.exit = .ok report.status.code
  lines : Text.lines o.out.toList = report.messages.map String.toList
  /-- Nothing else is on the standard output. -/
  out : o.out = String.join (report.messages.map fun s => s ++ "\n")
  writes : List.Forall₂ Hex.Writes report.messages report.values
  ascending : report.values.Pairwise (· ≤ ·)
  silent : report.status ≠ .success → o.out = ""

variable {run : Recovery}

theorem shows_of_solved {values : List ℕ} (hreport : run.report = .solved (values.map Hex.encode))
    (hsorted : values.Pairwise (· ≤ ·)) : (Command.recoveryOutput run).Shows run.report := by
  have hok : run.report.ok = true := by
    rw [hreport]
    rfl
  have hends : ∀ v ∈ values.map Hex.encode, ∀ c ∈ v.toList, Text.isLineEnd c = false := by
    rw [List.forall_mem_map]
    intro x _
    rw [Hex.toList_encode]
    exact Hex.forall_mem_digits (by decide) x
  unfold Command.recoveryOutput
  rw [if_pos hok, hreport]
  refine ⟨rfl, Text.lines_join hends, rfl, ?_, ?_, fun hstatus => absurd rfl hstatus⟩
  · rw [Report.values_solved]
    exact List.forall₂_map_left_iff.mpr (List.forall₂_same.mpr fun x _ => Hex.writes_encode x)
  · rwa [Report.values_solved]

theorem shows_of_messages_eq_nil (hstatus : run.report.status ≠ .success)
    (hmessages : run.report.messages = []) : (Command.recoveryOutput run).Shows run.report := by
  have hok : ¬ run.report.ok = true := by simpa [Report.ok] using hstatus
  have hvalues : run.report.values = [] := by
    rw [Report.values, hmessages]
    rfl
  unfold Command.recoveryOutput
  rw [if_neg hok]
  constructor
  · rfl
  · rw [hmessages]
    rfl
  · rw [hmessages]
    rfl
  · rw [hmessages, hvalues]
    exact .nil
  · rw [hvalues]
    exact .nil
  · exact fun _ => rfl

theorem shows_recoveryOutput {σ : Type} [Source σ] (settings : Settings) (source : σ)
    (r : Request) :
    (Command.recoveryOutput (r.recoverWith settings source)).Shows
      (r.recoverWith settings source).report := by
  by_cases hstatus : (r.recoverWith settings source).report.status = .success
  · obtain ⟨p, hr⟩ := Request.exists_poses hstatus
    obtain ⟨values, hreport, -, hsorted, -⟩ := Request.exists_values hr hstatus
    exact shows_of_solved hreport hsorted
  · have hconsistent := Request.consistent_report settings source r
    exact shows_of_messages_eq_nil hstatus (hconsistent.messages_eq_nil hstatus)

/-! ## Input -/

/-- A text reaches a command on the standard input, or in a file if it is one of ASCII. -/
inductive Input.Brings (text : String) : String → Input → Prop where
  | standardInput : Brings text "-" (.standardInput text)
  | file {name : String} (hname : '\x00' ∉ name.toList)
    (hascii : ∀ c ∈ text.toList, c.toNat < 128) :
    Brings text name (.file (.ok (Value.codes text.toList)))

theorem Input.text_codes {text : String} (hascii : ∀ c ∈ text.toList, c.toNat < 128)
    (name : String) : (file (.ok (Value.codes text.toList))).text name = .ok text := by
  have hnone : (Value.codes text.toList).dropWhile (· < 128) = [] := by
    rw [List.dropWhile_eq_nil_iff]
    intro b hb
    obtain ⟨c, hc, rfl⟩ := List.mem_map.mp hb
    rw [decide_eq_true_iff, UInt8.lt_iff_toNat_lt, Value.toNat_code (hascii c hc)]
    exact hascii c hc
  simp only [Input.text, hnone, Value.map_ofNat_codes hascii, String.ofList_toList]

variable {text name : String} {input : Input} {seed : Option ℤ} {method : Method} {attempts : ℤ}

theorem solveFile_of_brings (h : input.Brings text name) :
    Command.solveFile name (.value seed) (.value method) (.value attempts) input =
      Command.solveText (.value seed) (.value method) (.value attempts) text := by
  cases h with
  | standardInput => rfl
  | file hname hascii =>
    have hzero : ¬ name.toList.contains '\x00' = true := by simpa using hname
    rw [Command.solveFile, if_neg hzero, Input.text_codes hascii]

/-! ## The three ways in which the command can end -/

theorem solveText_of_error {n : ℕ} (h : InstanceText.parse text = .error n) :
    Command.solveText (.value seed) (.value method) (.value attempts) text =
      .complaint ("error: " ++ InstanceText.tooFewMessage n) Status.inputError.code := by
  rw [Command.solveText, h]

theorem solveText_of_le {t : InstanceText} (h : InstanceText.parse text = .ok t)
    (hattempts : 1 ≤ attempts) :
    let settings : Settings :=
      ⟨"cli", method, attempts, Settings.defaultLimit, none, hattempts, by decide⟩
    Command.solveText (.value seed) (.value method) (.value attempts) text =
      Command.recoveryOutput (t.request.recover (some settings) seed) := by
  intro settings
  have hmake : Settings.make "cli" method.name attempts Settings.defaultLimit none = .ok settings :=
    Settings.make_of_le hattempts _
  simp only [Command.solveText, h, Command.solveRequest, hmake]

theorem solveText_of_lt {t : InstanceText} (h : InstanceText.parse text = .ok t)
    (hattempts : attempts < 1) :
    Command.solveText (.value seed) (.value method) (.value attempts) text =
      .broken (.settings .noAttempts) := by
  simp only [Command.solveText, h, Command.solveRequest, Settings.make_of_lt hattempts]

/-- With fewer than three values the code is that of a malformed request. With three or more it is
the status of their recovery, and the messages are all that is on the standard output, whatever
numbers are drawn. Only where fewer than one shift is to be tried for each split there is no
code. -/
theorem solveFile_reports (h : input.Brings text name) (seed : Option ℤ) (method : Method)
    (attempts : ℤ) :
    let output := Command.solveFile name (.value seed) (.value method) (.value attempts) input
    let vs := InstanceText.values text.toList
    (vs.length < 3 → output.exit = .ok 101 ∧ output.out = "") ∧
    (3 ≤ vs.length → ∃ t, InstanceText.parse text = .ok t ∧
      vs = t.modulus.toList :: t.message.toList :: t.sums.map String.toList ∧
      (1 ≤ attempts → ∃ settings : Settings, settings.method = method ∧
        settings.attempts = attempts ∧ settings.limit = Settings.defaultLimit ∧
        output = Command.recoveryOutput (t.request.recover (some settings) seed) ∧
        output.Shows (t.request.recover (some settings) seed).report ∧
        ∀ (σ : Type) [Source σ] (source : σ),
          (Command.recoveryOutput (t.request.recoverWith settings source)).Shows
            (t.request.recoverWith settings source).report) ∧
      (attempts < 1 → output.exit = .error (.settings .noAttempts) ∧ output.out = "")) ∧
    ∀ code, output.exit = .ok code → code ∈ [0, 1, 100, 101] ∧ (code ≠ 0 → output.out = "") := by
  intro output vs
  have houtput : output = Command.solveText (.value seed) (.value method) (.value attempts) text :=
    solveFile_of_brings h
  rcases InstanceText.parse_cases text with ⟨hfew, herror⟩ | ⟨hmany, t, hparse, hvalues⟩
  · rw [solveText_of_error herror] at houtput
    rw [houtput]
    refine ⟨fun _ => ⟨rfl, rfl⟩, fun hle => absurd hfew (not_lt.mpr hle), fun code hcode => ?_⟩
    obtain rfl := Except.ok.inj hcode
    exact ⟨Status.code_mem .inputError, fun _ => rfl⟩
  rcases Int.lt_or_le attempts 1 with hattempts | hattempts
  · rw [solveText_of_lt hparse hattempts] at houtput
    rw [houtput]
    refine ⟨fun hlt => absurd hmany (not_le.mpr hlt), fun _ => ⟨t, hparse, hvalues, ?_, ?_⟩, ?_⟩
    · exact fun hle => absurd hattempts (not_lt.mpr hle)
    · exact fun _ => ⟨rfl, rfl⟩
    · intro code hcode
      cases hcode
  · rw [solveText_of_le hparse hattempts] at houtput
    let settings : Settings :=
      ⟨"cli", method, attempts, Settings.defaultLimit, none, hattempts, by decide⟩
    have hshows : output.Shows (t.request.recover (some settings) seed).report := by
      rw [houtput]
      exact shows_recoveryOutput settings _ t.request
    have hall : ∀ (σ : Type) [Source σ] (source : σ),
        (Command.recoveryOutput (t.request.recoverWith settings source)).Shows
          (t.request.recoverWith settings source).report :=
      fun σ _ source => shows_recoveryOutput settings source t.request
    refine ⟨fun hlt => absurd hmany (not_le.mpr hlt), fun _ => ⟨t, hparse, hvalues, ?_, ?_⟩, ?_⟩
    · exact fun _ => ⟨settings, rfl, rfl, rfl, houtput, hshows, hall⟩
    · exact fun hlt => absurd hattempts (not_le.mpr hlt)
    · intro code hcode
      obtain rfl := Except.ok.inj (hshows.exit.symm.trans hcode)
      refine ⟨Status.code_mem _, fun hne => hshows.silent fun hstatus => hne ?_⟩
      rw [hstatus]
      rfl

/-- A file with the sums four and three modulo seven has the messages one and three. -/
theorem solveFile_reports_seven :
    let text := "7\n1\n4\n3\n"
    let input := Input.file (.ok (Value.codes text.toList))
    let output := Command.solveFile "sums" (.value none) (.value .exhaustive) (.value 1) input
    input.Brings text "sums" ∧ 3 ≤ (InstanceText.values text.toList).length ∧ (1 : ℤ) ≤ 1 ∧
      output.exit = .ok 0 ∧ output.out = "1\n3\n" ∧
      ∃ (settings : Settings) (t : InstanceText), InstanceText.parse text = .ok t ∧
        settings.attempts = 1 ∧ output.Shows (t.request.recover (some settings) none).report := by
  intro text input output
  have hascii : text.toList.all (·.toNat < 128) = true := by decide +kernel
  have hbrings : input.Brings text "sums" :=
    .file (by simp) fun c hc => of_decide_eq_true (List.all_eq_true.mp hascii c hc)
  have hmany : 3 ≤ (InstanceText.values text.toList).length := by decide +kernel
  have hexit : output.exit = .ok 0 := by
    unfold output input text
    cbv
  have hout : output.out = "1\n3\n" := by
    unfold output input text
    cbv
  obtain ⟨-, hreports, -⟩ := solveFile_reports hbrings none .exhaustive 1
  obtain ⟨t, hparse, -, hsolved, -⟩ := hreports hmany
  obtain ⟨settings, -, hattempts, -, -, hshows, -⟩ := hsolved le_rfl
  exact ⟨hbrings, hmany, le_rfl, hexit, hout, settings, t, hparse, hattempts, hshows⟩

/-- Three values are not enough for a request, which any recovery answers with the same code. The
command that is to try no shifts ends without it. -/
theorem exists_solve_without_exit :
    let text := "7\n1\n4\n"
    (Command.solveFile "-" (.value none) (.value .frobenius) (.value 0)
        (.standardInput text)).exit = .error (.settings .noAttempts) ∧
      (InstanceText.values text.toList).length = 3 ∧
      ∃ t, InstanceText.parse text = .ok t ∧ ∀ settings seed,
        (t.request.recover settings seed).report.status.code = 101 := by
  intro text
  have hparse : InstanceText.parse text = .ok ⟨"7", "1", ["4"]⟩ := by decide +kernel
  have hvalid : (InstanceText.request ⟨"7", "1", ["4"]⟩).validate = .error (.countTooSmall 1) :=
    rfl
  refine ⟨by decide +kernel, by decide +kernel, _, hparse, fun settings seed => ?_⟩
  rw [Request.recover, Request.recoverWith, hvalid]
  rfl

end CommandLine

end MultisetRecovery

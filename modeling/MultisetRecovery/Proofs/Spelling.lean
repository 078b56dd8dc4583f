import MultisetRecovery.Proofs.Report

/-!
# The spelling of a request does not matter

A number can be given in many ways: as an integer, or by its digits in either case with zeros before
them, as a text or as bytes that a zero byte may end. Whether a request is well-formed, which
problem it poses and what is wrong with it depend on the numbers alone, so all spellings are
answered alike.
Integers are passed on in one of these spellings, and their answer is that of any other.
-/

namespace MultisetRecovery

/-! ## Spellings of numbers -/

namespace Hex

/-- The digits of a number in any case, with any number of zeros before them. -/
def Spells (cs : List Char) (n : ℕ) : Prop :=
  ∃ zeros, cs.map Char.toLower = List.replicate zeros '0' ++ digits n

theorem digit?_toLower (c : Char) : digit? c.toLower = digit? c := by
  by_cases hc : c.toNat < 128
  · have hall : ∀ n : Fin 128, digit? (Char.ofNat n).toLower = digit? (Char.ofNat n) := by decide
    have hchar := hall ⟨c.toNat, hc⟩
    rwa [Char.ofNat_toNat] at hchar
  · -- Only letters of ASCII have a lower case here.
    have hsame : c.toLower = c := by
      unfold Char.toLower
      rw [dif_neg]
      rintro ⟨-, hle⟩
      exact hc (Nat.lt_of_le_of_lt (UInt32.le_iff_toNat_le.mp hle) (by decide))
    rw [hsame]

theorem decodeFrom_map_toLower (acc : ℕ) (cs : List Char) :
    decodeFrom acc (cs.map Char.toLower) = decodeFrom acc cs := by
  induction cs generalizing acc with
  | nil => rfl
  | cons c cs ih =>
    rw [List.map_cons, decodeFrom, decodeFrom, digit?_toLower]
    exact congrArg _ (funext fun d => ih (16 * acc + d))

theorem decodeFrom_replicate_zero (zeros : ℕ) (cs : List Char) :
    decodeFrom 0 (List.replicate zeros '0' ++ cs) = decodeFrom 0 cs := by
  induction zeros with
  | zero => rfl
  | succ zeros ih =>
    rw [List.replicate_succ, List.cons_append, decodeFrom, show digit? '0' = some 0 by decide]
    exact ih

theorem Spells.decode_eq {cs : List Char} {n : ℕ} (h : Spells cs n) :
    decode (.ofList cs) = some n := by
  obtain ⟨zeros, hcs⟩ := h
  have hne : cs ≠ [] := by
    rintro rfl
    exact digits_ne_nil n (List.append_eq_nil_iff.mp hcs.symm).2
  rw [decode, String.toList_ofList, decodeChars, List.isEmpty_eq_false_iff.mpr hne,
    if_neg Bool.false_ne_true, ← decodeFrom_map_toLower, hcs, decodeFrom_replicate_zero,
    decodeFrom_digits]

theorem spells_digits (n : ℕ) : Spells (digits n) n := by
  refine ⟨0, ?_⟩
  conv_rhs => rw [List.replicate_zero, List.nil_append, ← List.map_id (digits n)]
  exact List.map_congr_left (forall_mem_digits (by decide) n)

/-- The sign of a negative number is no digit. -/
theorem decode_encodeInt_of_neg {v : ℤ} (hv : v < 0) : decode (encodeInt v) = none := by
  rw [encodeInt, if_pos hv, decode, String.toList_append]
  rfl

end Hex

namespace Value

variable {v v' : Value} {n : ℕ} {m : Modulus}

/-- A value that gives a number. -/
inductive Spells : Value → ℕ → Prop where
  | integer (n : ℕ) : Spells (.integer n) n
  | text {s : String} {n : ℕ} (h : Hex.Spells s.toList n) : Spells (.text s) n
  /-- The digits in bytes, also with a zero byte and any others behind them. -/
  | bytes {cs : List Char} {n : ℕ} {rest : List UInt8} (h : Hex.Spells cs n)
    (hrest : rest = [] ∨ ∃ more, rest = 0 :: more) : Spells (.bytes (codes cs ++ rest)) n
  /-- The same, where the bytes can be changed. -/
  | buffer {cs : List Char} {n : ℕ} {rest : List UInt8} (h : Hex.Spells cs n)
    (hrest : rest = [] ∨ ∃ more, rest = 0 :: more) : Spells (.buffer (codes cs ++ rest)) n

theorem Spells.denotes (h : v.Spells n) : v.Denotes n := by
  cases h with
  | integer n =>
    intro name
    rw [readNumber, if_neg (by omega), Int.toNat_natCast]
  | @text s _ h =>
    have hdecode := h.decode_eq
    rw [String.ofList_toList] at hdecode
    exact denotes_text hdecode
  | bytes h hrest => exact readBytes_codes h.decode_eq hrest
  | buffer h hrest => exact readBytes_codes h.decode_eq hrest

theorem spells_encodeInt (n : ℕ) : (text (Hex.encodeInt n)).Spells n := by
  refine .text ?_
  rw [Hex.encodeInt_natCast, Hex.toList_encode]
  exact Hex.spells_digits n

theorem nonneg_of_denotes {x : ℤ} (h : (text (Hex.encodeInt x)).Denotes n) : 0 ≤ x := by
  by_contra hx
  have hdecode := readText_eq_ok_iff.mp (h "")
  rw [Hex.decode_encodeInt_of_neg (not_le.mp hx)] at hdecode
  cases hdecode

/-! ## Errors of numbers -/

theorem Denotes.readResidue_congr (h : v.Denotes n) (h' : v'.Denotes n) (name : String) :
    v.readResidue m name = v'.readResidue m name := by
  rw [readResidue, readResidue, h name, h' name]

theorem readSums_congr {vs vs' : List Value} {ns : List ℕ} (h : List.Forall₂ Denotes vs ns)
    (h' : List.Forall₂ Denotes vs' ns) (i : ℕ) : readSums m i vs = readSums m i vs' := by
  -- Errors name the position of a sum, so both lists are followed in step.
  induction h generalizing vs' i with
  | nil =>
    cases h'
    rfl
  | cons hv hvs ih =>
    cases h' with
    | cons hv' hvs' => rw [readSums, readSums, hv.readResidue_congr hv', ih hvs']

end Value

/-! ## Spellings of requests -/

namespace Request

variable {r r' : Request} {q own : ℕ} {ns : List ℕ}

/-- A request without buffers that gives these numbers. -/
structure Spells (r : Request) (q own : ℕ) (ns : List ℕ) : Prop where
  modulus : r.modulus.Spells q
  message : r.message.Spells own
  sums : ∃ vs, r.sums.items? = some vs ∧ List.Forall₂ Value.Spells vs ns
  count : r.count = .absent ∨ r.count = .integer ns.length
  buffers : r.buffers = .absent

theorem spells_ofIntegers (q own : ℕ) (ns : List ℕ) :
    (ofIntegers q own (ns.map (↑))).Spells q own ns := by
  refine ⟨Value.spells_encodeInt _, Value.spells_encodeInt _, ⟨_, rfl, ?_⟩, .inl rfl, rfl⟩
  rw [List.map_map, List.map_map, List.forall₂_map_left_iff, List.forall₂_same]
  intro n _
  exact Value.spells_encodeInt n

theorem Spells.readCount_eq (h : r.Spells q own ns) :
    r.count.readCount ns.length = .ok ns.length := by
  rw [Value.readCount_eq_ok_iff]
  exact h.count.imp (fun habsent => ⟨habsent, rfl⟩) id

/-- The same numbers are found well-formed or not, and for the same reason. -/
theorem Spells.validate_congr (h : r.Spells q own ns)
    (h' : r'.Spells q own ns) : r.validate = r'.validate := by
  obtain ⟨vs, hvs, hsums⟩ := h.sums
  obtain ⟨vs', hvs', hsums'⟩ := h'.sums
  -- Each check is of the numbers, and its error tells nothing else.
  have hmodulus : ∀ n, r.readModulus n = r'.readModulus n := by
    intro n
    rw [readModulus, readModulus, h.modulus.denotes "prime", h'.modulus.denotes "prime"]
  have hmessage : ∀ m : Modulus,
      r.message.readResidue m "my_message" = r'.message.readResidue m "my_message" :=
    fun m => h.message.denotes.readResidue_congr h'.message.denotes "my_message"
  have hresidues : ∀ m : Modulus, Value.readSums m 0 vs = Value.readSums m 0 vs' :=
    fun m => Value.readSums_congr (hsums.imp fun _ _ => Value.Spells.denotes)
      (hsums'.imp fun _ _ => Value.Spells.denotes) 0
  unfold validate
  rw [Value.readSequence_eq_ok_iff.mpr hvs, Value.readSequence_eq_ok_iff.mpr hvs']
  simp only [Except.ok_bind, hsums.length_eq, hsums'.length_eq, h.readCount_eq, h'.readCount_eq,
    hmodulus, hmessage, hresidues, h.buffers, h'.buffers]

theorem Spells.recovery_congr {σ : Type} [Source σ] (h : r.Spells q own ns)
    (h' : r'.Spells q own ns) (settings : Settings) (source : σ) :
    r.recoverWith settings source = r'.recoverWith settings source := by
  rw [recoverWith, recoverWith, h.validate_congr h', h.buffers, h'.buffers]

/-- Only numbers that are not negative can be given as integers. -/
theorem Poses.nonneg {modulus message : ℤ} {sums : List ℤ} {p : Problem}
    (h : (ofIntegers modulus message sums).Poses p) :
    0 ≤ modulus ∧ 0 ≤ message ∧ ∀ s ∈ sums, 0 ≤ s := by
  refine ⟨Value.nonneg_of_denotes h.modulus, Value.nonneg_of_denotes h.message, ?_⟩
  obtain ⟨vs, hvs, hsums⟩ := h.sums
  obtain rfl : (sums.map Hex.encodeInt).map Value.text = vs := Option.some.inj hvs
  rw [List.map_map, List.forall₂_map_left_iff] at hsums
  have hboth := hsums.imp fun x a hdenotes =>
    And.intro (Value.nonneg_of_denotes hdenotes) hdenotes
  exact ((List.forall₂_and_left sums p.sums).mp hboth).1

end Request

/-! ## Answers -/

/-- What an answer tells of a report. -/
structure Report.Answers (report : Report)
    (answer : Except RefusedReason (Option (List ℕ))) : Prop where
  success : ∀ values, answer = .ok (some values) ↔
    report.status = .success ∧ report.values = values
  invalidSolution : answer = .ok none ↔ report.status = .invalidSolution
  inputError : ∀ reason, answer = .error (.input reason) ↔
    report.status = .inputError ∧ report.reason = some reason
  internalError : ∀ reason, answer = .error (.internal reason) ↔
    report.status = .internalError ∧ report.reason = some reason

theorem Report.Consistent.answers {report : Report} (h : report.Consistent) :
    report.Answers report.answer := by
  have hreason : report.status ≠ .success → ∃ reason, report.reason = some reason := by
    intro hstatus
    rw [← Option.ne_none_iff_exists']
    exact fun hnone => hstatus (h.success.mpr (h.reason.mpr hnone))
  unfold answer
  cases hstatus : report.status with
  | success => constructor <;> simp [hstatus]
  | invalidSolution => constructor <;> simp [hstatus]
  | inputError =>
    obtain ⟨reason, heq⟩ := hreason (by simp [hstatus])
    constructor <;> simp [hstatus, heq]
  | internalError =>
    obtain ⟨reason, heq⟩ := hreason (by simp [hstatus])
    constructor <;> simp [hstatus, heq]

/-- The answer for integers is that of every spelling of them, and all spellings are recovered from
alike. Negative integers have no spelling, and they are refused. -/
theorem recoverIntegers_spelled (seed : Option ℤ) (settings : Option Settings) :
    (∀ (q own : ℕ) (ns : List ℕ) (r : Request), r.Spells q own ns →
      (r.recover settings seed).report.Answers
        (recoverIntegers (ns.map (↑)) q own seed settings) ∧
      ∀ (σ : Type) [Source σ] (settings' : Settings) (source : σ),
        (r.recoverWith settings' source).report.Answers
          ((Request.ofIntegers q own (ns.map (↑))).recoverWith settings' source).report.answer ∧
        ∀ r' : Request, r'.Spells q own ns →
          r'.recoverWith settings' source = r.recoverWith settings' source) ∧
    ∀ (modulus message : ℤ) (sums : List ℤ),
      (modulus < 0 ∨ message < 0 ∨ ∃ s ∈ sums, s < 0) →
      ∃ reason, recoverIntegers sums modulus message seed settings = .error (.input reason) := by
  refine ⟨fun q own ns r hr => ?_, fun modulus message sums hnegative => ?_⟩
  · have hanswers : ∀ (σ : Type) [Source σ] (settings' : Settings) (source : σ),
        (r.recoverWith settings' source).report.Answers
          ((Request.ofIntegers q own (ns.map (↑))).recoverWith settings' source).report.answer := by
      intro σ _ settings' source
      rw [(Request.spells_ofIntegers q own ns).recovery_congr hr]
      exact (Request.consistent_report settings' source r).answers
    refine ⟨hanswers SplitMix _ _, fun σ _ settings' source => ⟨hanswers σ settings' source, ?_⟩⟩
    exact fun r' hr' => hr'.recovery_congr hr settings' source
  · cases hvalid : (Request.ofIntegers modulus message sums).validate with
    | error e =>
      refine ⟨e.message, ?_⟩
      rw [recoverIntegers, Request.recover, Request.recoverWith, hvalid]
      rfl
    | ok p =>
      obtain ⟨hmodulus, hmessage, hsums⟩ := (Request.validate_eq_ok_iff.mp hvalid).nonneg
      rcases hnegative with hneg | hneg | ⟨s, hs, hneg⟩
      · omega
      · omega
      · exact absurd (hsums s hs) (not_le.mpr hneg)

/-- Modulo thirty-one, the sums of three and eleven in four different spellings. -/
theorem recoverIntegers_spelled_thirtyOne :
    let r : Request := ⟨.text "001F", .bytes [0x30, 0x42, 0, 0xff],
      .tuple [.buffer [0x65], .integer 6], .integer 2, .absent⟩
    r.Spells 31 11 [14, 6] ∧ recoverIntegers [14, 6] 31 11 none none = .ok (some [3, 11]) ∧
      ∃ reason, recoverIntegers [14, -6] 31 11 none none = .error (.input reason) := by
  intro r
  have hmodulus : r.modulus.Spells 31 := .text ⟨2, by decide +kernel⟩
  have hdigits : Hex.Spells ['0', 'B'] 11 := ⟨1, by decide +kernel⟩
  have hmessage : r.message.Spells 11 := .bytes hdigits (.inr ⟨[0xff], rfl⟩)
  have hdigits' : Hex.Spells ['e'] 14 := ⟨0, by decide +kernel⟩
  have hsum : (Value.buffer [0x65]).Spells 14 := .buffer hdigits' (.inl rfl)
  have hr : r.Spells 31 11 [14, 6] :=
    ⟨hmodulus, hmessage, ⟨_, rfl, .cons hsum (.cons (.integer 6) .nil)⟩, .inr rfl, rfl⟩
  let p : Problem := ⟨⟨31, by decide⟩, ⟨11, by decide⟩, [⟨14, by decide⟩, ⟨6, by decide⟩]⟩
  have hposes : (Request.ofIntegers 31 11 [14, 6]).Poses p :=
    Request.poses_ofIntegers (p := p) (by decide) (by decide)
  let es : List (Residue p.modulus) := [⟨14, by decide⟩, ⟨2, by decide⟩]
  have hes : elementarySymmetric p.sums = .ok es := by decide +kernel
  have hroots : ((extractRoots es Settings.default.finder).run.run
      (p.session (SplitMix.ofSeed none))).1 = .ok ⟨[(3, 1), (11, 1)]⟩ := by
    simp only [extractRoots, Finder.rootsWithMultiplicity, Finder.countedRoots,
      List.mergeSort_eq_insertionSort]
    decide +kernel
  have hlisted : RootMultiset.values ⟨[(3, 1), (11, 1)]⟩ = [3, 11] :=
    RootMultiset.values_of_pairwise (by decide)
  have hreport : (r.recover none none).report = .solved ([3, 11].map Hex.encode) := by
    rw [Request.recover, hr.recovery_congr (Request.spells_ofIntegers 31 11 [14, 6]), ← hlisted]
    exact (Request.recoverWith_of_extractRoots hposes hes hroots (by rw [hlisted]; decide)).1
  obtain ⟨hspelled, hnegative⟩ := recoverIntegers_spelled none none
  obtain ⟨hanswers, -⟩ := hspelled 31 11 [14, 6] r hr
  refine ⟨hr, (hanswers.success [3, 11]).mpr ⟨?_, ?_⟩, ?_⟩
  · rw [hreport]
    rfl
  · rw [hreport, Report.values_solved]
  · exact hnegative 31 11 [14, -6] (.inr (.inr ⟨-6, by simp, by decide⟩))

end MultisetRecovery

import MultisetRecovery.Proofs.Numeral

/-!
# Which requests are well-formed

What a request must be is said here of the values in it and the numbers that they spell, without
reference to how they are checked (`Request.WellFormed`). The checks let exactly these requests
pass, return the numbers as residues, and refuse all others with an error of theirs; what is
recovered from afterwards is the same request.
-/

namespace MultisetRecovery

variable {m : Modulus}

/-! ## Numbers and buffers -/

theorem Hex.length_encode (n : ℕ) : (encode n).length = width n := by
  rw [← String.length_toList, toList_encode, width]

theorem Residue.exists_map_val_eq {ns : List ℕ} (h : ∀ n ∈ ns, n < m.value) :
    ∃ as : List (Residue m), as.map (·.val) = ns := by
  refine ⟨ns.map (ofNat m), ?_⟩
  rw [List.map_map]
  conv_rhs => rw [← List.map_id ns]
  exact List.map_congr_left fun n hn => Nat.mod_eq_of_lt (h n hn)

namespace Value

/-- A list or a tuple of these members. -/
def IsSequence (v : Value) (vs : List Value) : Prop := v = .list vs ∨ v = .tuple vs

theorem items?_eq_some_iff {v : Value} {vs : List Value} :
    v.items? = some vs ↔ v.IsSequence vs := by
  cases v <;> simp [items?, IsSequence]

theorem receives_iff {v : Value} {needed count : ℕ} :
    v.Receives needed count ↔ v = .absent ∨
      ∃ vs, v.IsSequence vs ∧ vs.length = count ∧ ∀ b ∈ vs, b.HasRoom needed := by
  simp only [Receives, items?_eq_some_iff]

end Value

/-! ## Requests -/

namespace Request

/-- The request gives a modulus, a message and sums, which are these numbers, and fits them. -/
structure WellFormed (r : Request) (modulus own : ℕ) (sums : List ℕ) : Prop where
  /-- The modulus is spelled. -/
  spells_modulus : r.modulus.Spells modulus
  /-- The caller's own message is spelled. -/
  spells_message : r.message.Spells own
  /-- The sums are spelled, in order, in a list or a tuple. -/
  spells_sums : ∃ vs, r.sums.IsSequence vs ∧ List.Forall₂ Value.Spells vs sums
  /-- The number of messages is left out, or it is an integer, and the number of the sums. -/
  count : r.count = .absent ∨ r.count = .integer sums.length
  two_le : 2 ≤ sums.length
  count_le : sums.length ≤ modulus
  message_lt : own < modulus
  sums_lt : ∀ s ∈ sums, s < modulus
  /-- There are no buffers, or one for each sum, which has room for the digits of the modulus and
  one byte more. -/
  buffers : r.buffers = .absent ∨ ∃ vs, r.buffers.IsSequence vs ∧ vs.length = sums.length ∧
    ∀ b ∈ vs, b.HasRoom ((Hex.encode modulus).length + 1)

/-- Residues are the numbers that are below the modulus. -/
theorem poses_iff_wellFormed {r : Request} {p : Problem} :
    r.Poses p ↔ r.WellFormed p.modulus.value p.message.val (p.sums.map (·.val)) := by
  have hsize : p.modulus.bufferSize = (Hex.encode p.modulus.value).length + 1 := by
    rw [Hex.length_encode, Modulus.bufferSize]
  have hcount : (p.sums.map (·.val)).length = p.count := List.length_map _
  have hall : ∀ vs : List Value, List.Forall₂ Value.Spells vs (p.sums.map (·.val)) ↔
      List.Forall₂ (fun v s => v.Denotes s.val) vs p.sums := by
    intro vs
    simp only [List.forall₂_map_right_iff, Value.denotes_iff_spells]
  constructor
  · intro h
    obtain ⟨vs, hvs, hsums⟩ := h.sums
    refine ⟨Value.denotes_iff_spells.mp h.modulus, Value.denotes_iff_spells.mp h.message,
      ⟨vs, Value.items?_eq_some_iff.mp hvs, (hall vs).mpr hsums⟩, ?_, ?_, ?_, p.message.val_lt, ?_,
      ?_⟩
    · rw [hcount]
      exact h.count
    · rw [hcount]
      exact h.two_le
    · rw [hcount]
      exact h.count_le
    · intro n hn
      obtain ⟨s, -, rfl⟩ := List.mem_map.mp hn
      exact s.val_lt
    · rw [hcount, ← hsize]
      exact Value.receives_iff.mp h.buffers
  · intro h
    obtain ⟨vs, hvs, hsums⟩ := h.spells_sums
    refine ⟨Value.denotes_iff_spells.mpr h.spells_modulus,
      Value.denotes_iff_spells.mpr h.spells_message,
      ⟨vs, Value.items?_eq_some_iff.mpr hvs, (hall vs).mp hsums⟩, ?_, ?_, ?_, ?_⟩
    · rw [← hcount]
      exact h.count
    · rw [← hcount]
      exact h.two_le
    · rw [← hcount]
      exact h.count_le
    · rw [← hcount, hsize]
      exact Value.receives_iff.mpr h.buffers

/-- The numbers of a well-formed request are those of a problem. -/
theorem WellFormed.exists_problem {r : Request} {modulus own : ℕ} {sums : List ℕ}
    (h : r.WellFormed modulus own sums) :
    ∃ p : Problem, p.modulus.value = modulus ∧ p.message.val = own ∧
      p.sums.map (·.val) = sums := by
  let m : Modulus := ⟨modulus, h.two_le.trans h.count_le⟩
  obtain ⟨as, has⟩ := Residue.exists_map_val_eq (m := m) h.sums_lt
  exact ⟨⟨m, ⟨own, h.message_lt⟩, as⟩, rfl, rfl, has⟩

theorem exists_validate_iff {r : Request} {modulus own : ℕ} {sums : List ℕ} :
    (∃ p, r.validate = .ok p ∧ p.modulus.value = modulus ∧ p.message.val = own ∧
      p.sums.map (·.val) = sums ∧ p.count = sums.length) ↔ r.WellFormed modulus own sums := by
  constructor
  · rintro ⟨p, hp, rfl, rfl, rfl, -⟩
    exact poses_iff_wellFormed.mp (validate_eq_ok_iff.mp hp)
  · intro h
    obtain ⟨p, rfl, rfl, rfl⟩ := h.exists_problem
    refine ⟨p, validate_eq_ok_iff.mpr (poses_iff_wellFormed.mpr h), rfl, rfl, rfl, ?_⟩
    exact (List.length_map _).symm

theorem exists_error_iff {r : Request} :
    (∃ e, r.validate = .error e) ↔ ∀ modulus own sums, ¬ r.WellFormed modulus own sums := by
  cases hvalid : r.validate with
  | error e =>
    refine iff_of_true ⟨e, rfl⟩ fun modulus own sums h => ?_
    obtain ⟨p, hp, -⟩ := exists_validate_iff.mpr h
    cases hvalid.symm.trans hp
  | ok p =>
    refine iff_of_false ?_ fun h => ?_
    · rintro ⟨e, he⟩
      cases he
    · exact h _ _ _ (poses_iff_wellFormed.mp (validate_eq_ok_iff.mp hvalid))

/-- The checks let a request pass exactly if it is well-formed, and then they return its numbers.
Every other request is refused with one of the errors of the checks. Either way the request is left
as it is: a refusal gives its buffers back, and a recovery works on the buffers that were given. -/
theorem validate_exact (r : Request) :
    (∀ modulus own sums, (∃ p, r.validate = .ok p ∧ p.modulus.value = modulus ∧
      p.message.val = own ∧ p.sums.map (·.val) = sums ∧ p.count = sums.length) ↔
        r.WellFormed modulus own sums) ∧
    ((∃ e, r.validate = .error e) ↔ ∀ modulus own sums, ¬ r.WellFormed modulus own sums) ∧
    ∀ (σ : Type) [Source σ] (settings : Settings) (source : σ),
      (∀ e, r.validate = .error e →
        (r.recoverWith settings source).report.status = .inputError ∧
          (r.recoverWith settings source).buffers = r.buffers) ∧
      ∀ p, r.validate = .ok p →
        r.recoverWith settings source = p.recover settings.finder source r.buffers := by
  refine ⟨fun _ _ _ => exists_validate_iff, exists_error_iff, fun σ _ settings source => ⟨?_, ?_⟩⟩
  · intro e he
    rw [recoverWith, he]
    exact ⟨rfl, rfl⟩
  · intro p hp
    exact recoverWith_eq settings source (validate_eq_ok_iff.mp hp)

/-- Modulo nineteen, two sums and two buffers of three bytes or more pass, and a buffer of two bytes
does not. -/
theorem validate_exact_nineteen :
    let r : Request := ⟨.text "0013", .bytes [0x35, 0, 0xff], .tuple [.integer 3, .buffer [0x41]],
      .integer 2, .list [.buffer [9, 9, 9], .buffer [8, 8, 8, 8]]⟩
    let r' : Request := { r with buffers := .list [.buffer [9, 9, 9], .buffer [8, 8]] }
    r.WellFormed 19 5 [3, 10] ∧
      (∃ p, r.validate = .ok p ∧ p.modulus.value = 19 ∧ p.message.val = 5 ∧
        p.sums.map (·.val) = [3, 10] ∧ p.count = 2) ∧
      ∀ modulus own sums, ¬ r'.WellFormed modulus own sums := by
  intro r r'
  have hmodulus : r.modulus.Spells 19 := .text ⟨2, by decide +kernel⟩
  have hmessage : r.message.Spells 5 := by
    have hdigits : Hex.Spells ['5'] 5 := ⟨0, by decide +kernel⟩
    exact .bytes hdigits (.inr ⟨[0xff], rfl⟩)
  have hten : (Value.buffer [0x41]).Spells 10 := by
    have hdigits : Hex.Spells ['A'] 10 := ⟨0, by decide +kernel⟩
    exact .buffer hdigits (.inl rfl)
  have hroom : ∀ b ∈ [Value.buffer [9, 9, 9], .buffer [8, 8, 8, 8]],
      b.HasRoom ((Hex.encode 19).length + 1) := by
    have hwidth : (Hex.encode 19).length + 1 = 3 := by decide +kernel
    simp [Value.HasRoom, hwidth]
  have hwell : r.WellFormed 19 5 [3, 10] :=
    ⟨hmodulus, hmessage, ⟨_, .inr rfl, .cons (.integer 3) (.cons hten .nil)⟩, .inr rfl, by decide,
      by decide, by decide, by decide, .inr ⟨_, .inl rfl, rfl, hroom⟩⟩
  have hrun : r'.validate.isOk = false := by decide +kernel
  have hrefused : ∃ e, r'.validate = .error e := by
    cases hvalid : r'.validate with
    | error e => exact ⟨e, rfl⟩
    | ok p =>
      rw [hvalid] at hrun
      cases hrun
  obtain ⟨hpasses, -⟩ := validate_exact r
  obtain ⟨-, herror, -⟩ := validate_exact r'
  exact ⟨hwell, (hpasses 19 5 [3, 10]).mpr hwell, herror.mp hrefused⟩

end Request

end MultisetRecovery

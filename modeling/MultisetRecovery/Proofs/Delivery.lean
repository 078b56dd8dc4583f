import MultisetRecovery.Proofs.Recovery

/-!
# Messages reach all buffers or none

The buffers of a request are written to in the last step of a recovery, when nothing can fail any
more, so after a failure they hold what they held before. After a success each buffer holds its
message and a zero byte, and behind them what it held before; it has the length that it had, because
no residue has more digits than the modulus, and a request without room for these is refused.
-/

namespace MultisetRecovery

variable {m : Modulus}

namespace Buffers

/-! ## One buffer -/

/-- A buffer before and after a message for the number `x` was written to it. -/
structure Records (message : String) (x : ℕ) (held written : List UInt8) : Prop where
  writes : Hex.Writes message x
  length : written.length = held.length
  /-- It begins with the digits and a zero byte. -/
  begins : Value.codes message.toList ++ [0] <+: written
  /-- Behind the zero byte nothing has changed. -/
  behind : written.drop (message.length + 1) = held.drop (message.length + 1)
  denotes : (Value.buffer written).Denotes x

theorem length_record (x : ℕ) : (record x).length = (Hex.encode x).length + 1 := by
  rw [record, List.length_append, Value.codes, List.length_map, ← String.length_toList,
    Hex.toList_encode]
  rfl

/-- A residue has no more digits than the modulus. -/
theorem length_record_le {x : ℕ} (hx : x < m.value) : (record x).length ≤ m.bufferSize := by
  rw [record, List.length_append, Value.codes, List.length_map]
  exact Nat.add_le_add_right (Hex.width_le_width hx.le) 1

theorem records_overwrite {x : ℕ} (hx : x < m.value) {held : List UInt8}
    (hroom : m.bufferSize ≤ held.length) :
    Records (Hex.encode x) x held (overwrite (record x) held) := by
  have hfits : (record x).length ≤ held.length := (length_record_le hx).trans hroom
  refine ⟨Hex.writes_encode x, ?_, ?_, ?_, ?_⟩
  · rw [overwrite, List.length_append, List.length_drop]
    omega
  · rw [Hex.toList_encode]
    exact List.prefix_append _ _
  · rw [overwrite, ← length_record]
    exact List.drop_left
  · intro name
    have hdecode : Hex.decode (.ofList (Hex.digits x)) = some x := Hex.decode_encode x
    have hread := Value.readBytes_codes hdecode
      (.inr ⟨held.drop (record x).length, rfl⟩) name
    rwa [List.append_cons] at hread

/-! ## All buffers -/

/-- Buffers before and after messages were written to them, one message to each. -/
structure RecordsAll (messages : List String) (values : List ℕ)
    (held written : List (List UInt8)) : Prop where
  length_held : held.length = messages.length
  length_written : written.length = messages.length
  /-- Each message is in the buffer at its position. -/
  records : ∀ (i : ℕ) (message : String) (x : ℕ), messages[i]? = some message →
    values[i]? = some x →
    ∃ b b', held[i]? = some b ∧ written[i]? = some b' ∧ Records message x b b'

theorem recordsAll_overwrite {values : List ℕ} (hvalues : ∀ x ∈ values, x < m.value)
    {held : List (List UInt8)} (hlen : held.length = values.length)
    (hroom : ∀ b ∈ held, m.bufferSize ≤ b.length) :
    RecordsAll (values.map Hex.encode) values held
      (List.zipWith (fun x b => overwrite (record x) b) values held) := by
  refine ⟨by rw [List.length_map, hlen], by simp [hlen], ?_⟩
  intro i message x hmessage hx
  obtain ⟨hi, rfl⟩ := List.getElem?_eq_some_iff.mp hx
  have hi' : i < held.length := by rw [hlen]; exact hi
  obtain rfl : Hex.encode values[i] = message := by simpa [hi] using hmessage
  have hrecords := records_overwrite (hvalues _ (List.getElem_mem hi))
    (hroom _ (List.getElem_mem hi'))
  refine ⟨held[i], _, List.getElem?_eq_getElem hi', ?_, hrecords⟩
  rw [List.getElem?_zipWith, hx, List.getElem?_eq_getElem hi']

end Buffers

/-- What becomes of the buffers of a request when messages are written to them: a list stays a list
and a tuple a tuple. -/
inductive Value.Delivers (messages : List String) (values : List ℕ) : Value → Value → Prop where
  /-- Without buffers nothing is written. -/
  | absent : Delivers messages values .absent .absent
  | list {held written : List (List UInt8)}
    (h : Buffers.RecordsAll messages values held written) :
    Delivers messages values (.list (held.map .buffer)) (.list (written.map .buffer))
  | tuple {held written : List (List UInt8)}
    (h : Buffers.RecordsAll messages values held written) :
    Delivers messages values (.tuple (held.map .buffer)) (.tuple (written.map .buffer))

theorem Value.Receives.delivers {v : Value} {values : List ℕ}
    (h : v.Receives m.bufferSize values.length) (hvalues : ∀ x ∈ values, x < m.value) :
    Value.Delivers (values.map Hex.encode) values v
      (v.writeBuffers m (values.map Hex.encode)).1 := by
  rcases h.exists_held with rfl | ⟨held, hlen, hroom, rfl | rfl⟩
  · exact .absent
  · rw [writeBuffers_list (Buffers.write_encode hlen hroom)]
    exact .list (Buffers.recordsAll_overwrite hvalues hlen hroom)
  · rw [writeBuffers_tuple (Buffers.write_encode hlen hroom)]
    exact .tuple (Buffers.recordsAll_overwrite hvalues hlen hroom)

namespace Problem

variable {p : Problem} {σ : Type} [Source σ] {finder : Finder} {source : σ} {buffers : Value}
  {run : Recovery}

theorem Course.buffers_eq (h : p.Course finder source buffers run)
    (hstatus : run.report.status ≠ .success) : run.buffers = buffers := by
  -- Nothing is written before the last step, and that succeeds.
  cases h with
  | uncomputed hes => rfl
  | unextracted hes hrun => rfl
  | foreign hes hrun hfits hsums hown => rfl
  | solved hes hrun hfits hsums hown => exact absurd rfl hstatus

theorem Course.delivers (h : p.Course finder source buffers run)
    (hbuffers : buffers.Receives p.modulus.bufferSize p.count)
    (hstatus : run.report.status = .success) :
    Value.Delivers run.report.messages run.report.values buffers run.buffers := by
  cases h with
  | uncomputed hes => cases hstatus
  | @unextracted es e s hes hrun => cases e <;> cases hstatus
  | foreign hes hrun hfits hsums hown => cases hstatus
  | @solved es roots s hes hrun hfits hsums hown =>
    rw [← hfits.length_values] at hbuffers
    rw [Report.values_solved]
    exact hbuffers.delivers fun x hx => hfits.lt_of_mem_values hx

end Problem

namespace Request

/-- A recovery that does not succeed leaves the buffers of its request as they are. One that
succeeds leaves in each of them its message and a zero byte, and nothing else has changed. -/
theorem recoverWith_delivers {σ : Type} [Source σ] (settings : Settings) (source : σ)
    (r : Request) :
    let run := r.recoverWith settings source
    (run.report.status ≠ .success → run.buffers = r.buffers) ∧
      (run.report.status = .success →
        Value.Delivers run.report.messages run.report.values r.buffers run.buffers) := by
  intro run
  cases hvalid : r.validate with
  | error e =>
    have hrun : run = ⟨.failed .inputError .start e.message, r.buffers, [.rejected e.message]⟩ := by
      show r.recoverWith settings source = _
      rw [recoverWith, hvalid]
    rw [hrun]
    refine ⟨fun _ => rfl, fun hstatus => ?_⟩
    cases hstatus
  | ok p =>
    have hr := validate_eq_ok_iff.mp hvalid
    have hcourse : p.Course settings.finder source r.buffers run :=
      course_recoverWith settings source hr
    exact ⟨hcourse.buffers_eq, hcourse.delivers hr.buffers⟩

/-- Modulo nineteen, the messages five and seventeen are written to buffers of different lengths. -/
theorem recoverWith_delivers_nineteen :
    let r : Request := { ofIntegers 19 5 [3, 10] with
      buffers := .list [.buffer [9, 9, 9], .buffer [8, 8, 8, 8, 8]] }
    let run := r.recoverWith .default (SplitMix.ofSeed none)
    run.report.status = .success ∧ run.report.messages = ["5", "11"] ∧
      run.report.values = [5, 17] ∧ Value.Delivers ["5", "11"] [5, 17] r.buffers run.buffers ∧
      run.buffers = .list [.buffer [0x35, 0, 9], .buffer [0x31, 0x31, 0, 8, 8]] := by
  intro r run
  let p : Problem := ⟨⟨19, by decide⟩, ⟨5, by decide⟩, [⟨3, by decide⟩, ⟨10, by decide⟩]⟩
  have hroom : r.buffers.Receives p.modulus.bufferSize p.count := by
    refine .inr ⟨_, rfl, rfl, List.forall_mem_cons.mpr ⟨?_, List.forall_mem_singleton.mpr ?_⟩⟩
    · exact ⟨_, rfl, by decide +kernel⟩
    · exact ⟨_, rfl, by decide +kernel⟩
  have hr : r.Poses p :=
    { poses_ofIntegers (p := p) (by decide) (by decide) with buffers := hroom }
  let es : List (Residue p.modulus) := [⟨3, by decide⟩, ⟨9, by decide⟩]
  have hes : elementarySymmetric p.sums = .ok es := by decide +kernel
  have hroots : ((extractRoots es Settings.default.finder).run.run
      (p.session (SplitMix.ofSeed none))).1 = .ok ⟨[(5, 1), (17, 1)]⟩ := by
    simp only [extractRoots, Finder.rootsWithMultiplicity, Finder.countedRoots,
      List.mergeSort_eq_insertionSort]
    decide +kernel
  have hlisted : RootMultiset.values ⟨[(5, 1), (17, 1)]⟩ = [5, 17] :=
    RootMultiset.values_of_pairwise (by decide)
  obtain ⟨hreport, hwritten⟩ : run.report = _ ∧ run.buffers = _ :=
    recoverWith_of_extractRoots hr hes hroots (by rw [hlisted]; decide)
  rw [hlisted] at hreport hwritten
  have hstatus : run.report.status = .success := by rw [hreport]; rfl
  have hmessages : run.report.messages = ["5", "11"] := by
    rw [hreport]
    decide +kernel
  have hvalues : run.report.values = [5, 17] := by rw [hreport, Report.values_solved]
  have hwrite : Buffers.write p.modulus ([5, 17].map Hex.encode) [[9, 9, 9], [8, 8, 8, 8, 8]] =
      ([[0x35, 0, 9], [0x31, 0x31, 0, 8, 8]], none) := by decide +kernel
  have hbuffers : run.buffers = .list [.buffer [0x35, 0, 9], .buffer [0x31, 0x31, 0, 8, 8]] :=
    hwritten.trans (congrArg Prod.fst (Value.writeBuffers_list hwrite))
  obtain ⟨-, hsuccess⟩ := recoverWith_delivers .default (SplitMix.ofSeed none) r
  have hdelivers : Value.Delivers run.report.messages run.report.values r.buffers run.buffers :=
    hsuccess hstatus
  rw [hmessages, hvalues] at hdelivers
  exact ⟨hstatus, hmessages, hvalues, hdelivers, hbuffers⟩

end Request

end MultisetRecovery

import Mathlib.Data.List.TakeWhile
import MultisetRecovery.Proofs.Request

/-!
# Buffers that are written in part

Messages are written one after the other, and a buffer and its message are looked at only when
their turn comes. So a failure in the middle comes too late for the buffers in front of it: they
hold their messages by then (`write_stops`). All buffers are as they were only where the first one
is refused, or where those in front held these bytes before.
-/

namespace MultisetRecovery.Buffers

variable {needed : ℕ}

/-! ## One buffer -/

/-- What is written of a message: its characters and a zero byte. -/
def terminated (s : String) : List UInt8 := Value.codes s.toList ++ [0]

/-- A buffer with a message written to it. -/
def filled (s : String) (b : List UInt8) : List UInt8 := overwrite (terminated s) b

/-- The buffer has room and the message is one of ASCII. -/
structure Accepts (needed : ℕ) (message : String) (held : List UInt8) : Prop where
  room : needed ≤ held.length
  ascii : ∀ c ∈ message.toList, isAscii c = true

/-- The buffer is too short, or the message has a first run of characters outside ASCII. -/
inductive Refuses (needed : ℕ) (message : String) (held : List UInt8) : BufferError → Prop where
  | tooShort (hroom : held.length < needed) :
    Refuses needed message held (.tooShort held.length needed)
  | notAscii (hroom : needed ≤ held.length) {before run after : List Char} {c : Char}
    (htext : message.toList = before ++ (c :: run ++ after))
    (hbefore : ∀ d ∈ before, isAscii d = true) (hrun : ∀ d ∈ c :: run, isAscii d = false)
    (hafter : ∀ d ∈ after.head?, isAscii d = true) :
    Refuses needed message held (.notAscii c before.length (run.length + 1))

theorem encodeAscii_of_isAscii {s : String} (h : ∀ c ∈ s.toList, isAscii c = true) :
    encodeAscii s = .ok (Value.codes s.toList) := by
  have hnil : s.toList.dropWhile isAscii = [] := List.dropWhile_eq_nil_iff.mpr h
  simp only [encodeAscii, hnil, Value.codes]

theorem encodeAscii_of_run {s : String} {before run after : List Char} {c : Char}
    (htext : s.toList = before ++ (c :: run ++ after)) (hbefore : ∀ d ∈ before, isAscii d = true)
    (hrun : ∀ d ∈ c :: run, isAscii d = false) (hafter : ∀ d ∈ after.head?, isAscii d = true) :
    encodeAscii s = .error (.notAscii c before.length (run.length + 1)) := by
  have hc : isAscii c = false := hrun c List.mem_cons_self
  have hdrop : s.toList.dropWhile isAscii = c :: (run ++ after) := by
    rw [htext, List.dropWhile_append_of_pos hbefore, List.cons_append,
      List.dropWhile_cons_of_neg (by simp [hc])]
  have htake : s.toList.takeWhile isAscii = before := by
    rw [htext, List.takeWhile_append_of_pos hbefore, List.cons_append,
      List.takeWhile_cons_of_neg (by simp [hc]), List.append_nil]
  have hend : after.takeWhile (!isAscii ·) = [] := by
    cases after with
    | nil => rfl
    | cons d ds =>
      have hd : isAscii d = true := hafter d rfl
      exact List.takeWhile_cons_of_neg (by simp [hd])
  have hlength : ((c :: (run ++ after)).takeWhile (!isAscii ·)).length = run.length + 1 := by
    rw [← List.cons_append, List.takeWhile_append_of_pos fun d hd => by simp [hrun d hd], hend,
      List.append_nil, List.length_cons]
  simp only [encodeAscii, hdrop, htake, hlength]

theorem accepts_or_refuses (needed : ℕ) (s : String) (b : List UInt8) :
    Accepts needed s b ∨ ∃ e, Refuses needed s b e := by
  rcases Nat.lt_or_ge b.length needed with hshort | hroom
  · exact .inr ⟨_, .tooShort hshort⟩
  have hsplit := List.takeWhile_append_dropWhile (p := isAscii) (l := s.toList)
  cases hdrop : s.toList.dropWhile isAscii with
  | nil => exact .inl ⟨hroom, List.dropWhile_eq_nil_iff.mp hdrop⟩
  | cons c rest =>
    have hc : isAscii c = false := by
      have hhead := List.head?_dropWhile_not isAscii s.toList
      rw [hdrop] at hhead
      simpa using hhead
    have htext : s.toList = s.toList.takeWhile isAscii ++
        (c :: rest.takeWhile (!isAscii ·) ++ rest.dropWhile (!isAscii ·)) := by
      rw [List.cons_append, List.takeWhile_append_dropWhile, ← hdrop, hsplit]
    refine .inr ⟨_, .notAscii hroom htext (fun d hd => List.mem_takeWhile_imp hd) ?_ ?_⟩
    · rw [List.forall_mem_cons]
      exact ⟨hc, fun d hd => by simpa using List.mem_takeWhile_imp hd⟩
    · intro d hd
      have hhead := List.head?_dropWhile_not (!isAscii ·) rest
      rw [Option.mem_def.mp hd] at hhead
      simpa using hhead

theorem filled_eq_self_iff {s : String} {b : List UInt8} : filled s b = b ↔ terminated s <+: b := by
  constructor
  · intro h
    exact ⟨_, h⟩
  · rintro ⟨rest, rfl⟩
    rw [filled, overwrite, List.drop_left]

/-! ## One buffer after the other -/

theorem writeFrom_of_accepts {s : String} {b : List UInt8} (h : Accepts needed s b)
    (ss : List String) (bs : List (List UInt8)) :
    writeFrom needed (s :: ss) (b :: bs) =
      (filled s b :: (writeFrom needed ss bs).1, (writeFrom needed ss bs).2) := by
  rw [writeFrom, if_neg (Nat.not_lt.mpr h.room), encodeAscii_of_isAscii h.ascii]
  rfl

theorem writeFrom_of_refuses {s : String} {b : List UInt8} {e : BufferError}
    (h : Refuses needed s b e) (ss : List String) (bs : List (List UInt8)) :
    writeFrom needed (s :: ss) (b :: bs) = (b :: bs, some e) := by
  cases h with
  | tooShort hroom => rw [writeFrom, if_pos hroom]
  | notAscii hroom htext hbefore hrun hafter =>
    rw [writeFrom, if_neg (Nat.not_lt.mpr hroom), encodeAscii_of_run htext hbefore hrun hafter]

/-- Buffers that accept their messages are written, whatever happens to those behind them. -/
theorem writeFrom_append {done : List String} {front : List (List UInt8)}
    (h : List.Forall₂ (Accepts needed) done front) (rest : List String)
    (behind : List (List UInt8)) :
    writeFrom needed (done ++ rest) (front ++ behind) =
      (List.zipWith filled done front ++ (writeFrom needed rest behind).1,
        (writeFrom needed rest behind).2) := by
  induction h with
  | nil => rfl
  | cons haccepts _ ih =>
    rw [List.cons_append, List.cons_append, writeFrom_of_accepts haccepts, ih]
    rfl

/-- Either all buffers accept their messages, or there is a first that does not. -/
theorem forall_accepts_or_exists_refuses (needed : ℕ) {messages : List String}
    {held : List (List UInt8)} (hlen : held.length = messages.length) :
    List.Forall₂ (Accepts needed) messages held ∨
      ∃ done s rest front b behind e, messages = done ++ s :: rest ∧ held = front ++ b :: behind ∧
        List.Forall₂ (Accepts needed) done front ∧ Refuses needed s b e := by
  induction messages generalizing held with
  | nil =>
    obtain rfl := List.length_eq_zero_iff.mp hlen
    exact .inl .nil
  | cons s messages ih =>
    obtain ⟨b, held, rfl⟩ := List.exists_cons_of_length_eq_add_one hlen
    rcases accepts_or_refuses needed s b with haccepts | ⟨e, hrefuses⟩
    · rcases ih (Nat.succ.inj hlen) with
        hall | ⟨done, t, rest, front, c, behind, e, rfl, rfl, hdone, hrefuses⟩
      · exact .inl (.cons haccepts hall)
      · exact .inr ⟨s :: done, t, rest, b :: front, c, behind, e, rfl, rfl, .cons haccepts hdone,
          hrefuses⟩
    · exact .inr ⟨[], s, messages, [], b, held, e, rfl, rfl, .nil, hrefuses⟩

theorem zipWith_filled_eq_iff {done : List String} {front : List (List UInt8)}
    (hlen : done.length = front.length) :
    List.zipWith filled done front = front ↔
      List.Forall₂ (fun t x => terminated t <+: x) done front := by
  induction done generalizing front with
  | nil =>
    obtain rfl := List.length_eq_zero_iff.mp hlen.symm
    simp
  | cons t done ih =>
    obtain ⟨x, front, rfl⟩ := List.exists_cons_of_length_eq_add_one hlen.symm
    rw [List.zipWith_cons_cons, List.cons.injEq, List.forall₂_cons, filled_eq_self_iff,
      ih (Nat.succ.inj hlen)]

/-- A write that fails has written to all buffers in front of the one that it fails at, and to no
other. A wrong number of buffers is the only failure that is noticed beforehand. -/
theorem write_stops (m : Modulus) (messages : List String) (held written : List (List UInt8))
    (e : BufferError) (h : write m messages held = (written, some e)) :
    (held.length ≠ messages.length ∧ e = .count messages.length held.length ∧ written = held) ∨
    ∃ done s rest front b behind, messages = done ++ s :: rest ∧ held = front ++ b :: behind ∧
      List.Forall₂ (Accepts m.bufferSize) done front ∧ Refuses m.bufferSize s b e ∧
      written = List.zipWith filled done front ++ b :: behind ∧
      (written = held ↔ List.Forall₂ (fun t x => terminated t <+: x) done front) := by
  unfold write at h
  split at h
  · rename_i hlen
    cases h
    exact .inl ⟨hlen, rfl, rfl⟩
  rename_i hlen
  right
  rcases forall_accepts_or_exists_refuses m.bufferSize (not_not.mp hlen) with
    hall | ⟨done, s, rest, front, b, behind, e', rfl, rfl, hdone, hrefuses⟩
  · have hwritten := writeFrom_append hall [] []
    rw [List.append_nil, List.append_nil, h] at hwritten
    cases congrArg Prod.snd hwritten
  · rw [writeFrom_append hdone, writeFrom_of_refuses hrefuses] at h
    cases h
    refine ⟨done, s, rest, front, b, behind, rfl, rfl, hdone, hrefuses, rfl, ?_⟩
    rw [List.append_left_inj, zipWith_filled_eq_iff hdone.length_eq]

/-- Modulo seven a buffer needs two bytes. The third one has only one, and the first two have been
written when that is noticed. -/
theorem write_stops_seven :
    let m : Modulus := ⟨7, by decide⟩
    let held : List (List UInt8) := [[0xaa, 0xaa, 0xaa], [0xaa, 0xaa], [0xaa], [0xaa, 0xaa]]
    let written : List (List UInt8) := [[0x31, 0, 0xaa], [0x32, 0], [0xaa], [0xaa, 0xaa]]
    write m ["1", "2", "3", "4"] held = (written, some (.tooShort 1 2)) ∧
      ∃ done s rest front b behind, ["1", "2", "3", "4"] = done ++ s :: rest ∧
        held = front ++ b :: behind ∧ Refuses 2 s b (.tooShort 1 2) ∧
        written = List.zipWith filled done front ++ b :: behind := by
  intro m held written
  have hrun : write m ["1", "2", "3", "4"] held = (written, some (.tooShort 1 2)) := by
    decide +kernel
  have hsize : m.bufferSize = 2 := by decide +kernel
  refine ⟨hrun, ?_⟩
  rcases write_stops m _ held written _ hrun with
    ⟨hlen, -⟩ | ⟨done, s, rest, front, b, behind, hmessages, hheld, -, hrefuses, hwritten, -⟩
  · exact absurd rfl hlen
  · rw [hsize] at hrefuses
    exact ⟨done, s, rest, front, b, behind, hmessages, hheld, hrefuses, hwritten⟩

/-- After a failure the buffers need not be as they were. -/
theorem exists_write_failed_halfway :
    ∃ (m : Modulus) (messages : List String) (held written : List (List UInt8)) (e : BufferError),
      write m messages held = (written, some e) ∧ written ≠ held :=
  ⟨⟨7, by decide⟩, ["1", "3"], [[0xaa, 0xaa], [0xaa]], [[0x31, 0], [0xaa]], .tooShort 1 2,
    by decide +kernel, by decide⟩

end MultisetRecovery.Buffers

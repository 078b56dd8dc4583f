import Mathlib.Data.Int.Notation
import Mathlib.Data.List.Forall2
import MultisetRecovery.Proofs.Computation
import MultisetRecovery.Proofs.Hex
import MultisetRecovery.Recovery

/-!
# What a well-formed request asks

A request passes the checks exactly if it poses a problem (`Request.Poses`), and then that is the
problem which the checks return (`Request.validate_eq_ok_iff`). Requests in hexadecimal digits pass
them whenever the numbers do.
-/

namespace MultisetRecovery

namespace Value

variable {m : Modulus}

/-! ## Numbers -/

/-- The value is an integer, a text or bytes that stand for this number. -/
def Denotes (v : Value) (n : ℕ) : Prop := ∀ name, v.readNumber name = .ok n

theorem readText_eq_ok_iff {name s : String} {n : ℕ} :
    readText name s = .ok n ↔ Hex.decode s = some n := by
  unfold readText
  cases Hex.decode s with
  | none => simp
  | some k => simp

theorem readBytes_eq_ok_iff {name : String} {data : List UInt8} {n : ℕ} :
    readBytes name data = .ok n ↔ (data.takeWhile (· ≠ 0)).all (· < 128) = true ∧
      Hex.decode (.ofList ((data.takeWhile (· ≠ 0)).map fun b => .ofNat b.toNat)) = some n := by
  simp only [readBytes]
  split
  · rename_i hascii
    rw [readText_eq_ok_iff]
    exact (and_iff_right hascii).symm
  · rename_i hascii
    constructor
    · intro h
      cases h
    · intro h
      exact absurd h.1 hascii

/-- The bytes of a text of ASCII. -/
def codes (cs : List Char) : List UInt8 := cs.map fun c => UInt8.ofNat c.toNat

theorem toNat_code {c : Char} (h : c.toNat < 128) : (UInt8.ofNat c.toNat).toNat = c.toNat := by
  rw [UInt8.toNat_ofNat']
  exact Nat.mod_eq_of_lt (by omega)

theorem toNat_of_mem_codes {cs : List Char} (h : ∀ c ∈ cs, 0 < c.toNat ∧ c.toNat < 128) :
    ∀ b ∈ codes cs, 0 < b.toNat ∧ b.toNat < 128 := by
  intro b hb
  obtain ⟨c, hc, rfl⟩ := List.mem_map.mp hb
  rw [toNat_code (h c hc).2]
  exact h c hc

theorem map_ofNat_codes {cs : List Char} (h : ∀ c ∈ cs, c.toNat < 128) :
    (codes cs).map (fun b => Char.ofNat b.toNat) = cs := by
  rw [codes, List.map_map]
  conv_rhs => rw [← List.map_id cs]
  refine List.map_congr_left fun c hc => ?_
  rw [Function.comp_apply, toNat_code (h c hc), Char.ofNat_toNat]
  rfl

/-- A zero byte ends the bytes that are read. -/
theorem takeWhile_ne_zero_append {raw rest : List UInt8} (hraw : ∀ b ∈ raw, b ≠ 0)
    (hrest : rest = [] ∨ ∃ more, rest = 0 :: more) :
    (raw ++ rest).takeWhile (· ≠ 0) = raw := by
  rw [List.takeWhile_append_of_pos fun b hb => by simpa using hraw b hb]
  rcases hrest with rfl | ⟨more, rfl⟩
  · exact List.append_nil _
  · rw [List.takeWhile_cons_of_neg (by simp), List.append_nil]

/-- Bytes of ASCII are read as their text, also with a zero byte and any others behind them. -/
theorem readBytes_codes_append {cs : List Char} (hascii : ∀ c ∈ cs, 0 < c.toNat ∧ c.toNat < 128)
    {rest : List UInt8} (hrest : rest = [] ∨ ∃ more, rest = 0 :: more) (name : String) :
    readBytes name (codes cs ++ rest) = readText name (.ofList cs) := by
  have hcodes := toNat_of_mem_codes hascii
  have hraw : ∀ b ∈ codes cs, b ≠ 0 := by
    rintro b hb rfl
    exact Nat.lt_irrefl 0 (hcodes 0 hb).1
  have hall : (codes cs).all (· < 128) = true := by
    rw [List.all_eq_true]
    intro b hb
    rw [decide_eq_true_iff, UInt8.lt_iff_toNat_lt]
    exact (hcodes b hb).2
  simp only [readBytes, takeWhile_ne_zero_append hraw hrest]
  rw [if_pos hall, map_ofNat_codes fun c hc => (hascii c hc).2]

/-- Bytes of digits read as these digits. -/
theorem readBytes_codes {cs : List Char} {n : ℕ} (h : Hex.decode (.ofList cs) = some n)
    {rest : List UInt8} (hrest : rest = [] ∨ ∃ more, rest = 0 :: more) (name : String) :
    readBytes name (codes cs ++ rest) = .ok n := by
  have hascii : ∀ c ∈ cs, 0 < c.toNat ∧ c.toNat < 128 := by
    rw [Hex.decode, String.toList_ofList, Hex.decodeChars] at h
    split at h
    · cases h
    · exact Hex.toNat_of_decodeFrom h
  rw [readBytes_codes_append hascii hrest]
  exact readText_eq_ok_iff.mpr h

/-- The name of a number matters in errors only. -/
theorem readNumber_eq_ok_iff {v : Value} (name : String) {n : ℕ} :
    v.readNumber name = .ok n ↔ v.Denotes n := by
  refine ⟨fun h other => ?_, fun h => h name⟩
  cases v with
  | integer k =>
    simp only [readNumber] at h ⊢
    split at h
    · cases h
    · rename_i hk
      rwa [if_neg hk]
  | text s => exact readText_eq_ok_iff.mpr (readText_eq_ok_iff.mp h)
  | bytes data => exact readBytes_eq_ok_iff.mpr (readBytes_eq_ok_iff.mp h)
  | buffer data => exact readBytes_eq_ok_iff.mpr (readBytes_eq_ok_iff.mp h)
  | truth b => cases h
  | absent => cases h
  | list vs => cases h
  | tuple vs => cases h
  | real => cases h
  | thing => cases h

theorem denotes_text {s : String} {n : ℕ} (h : Hex.decode s = some n) : (text s).Denotes n :=
  fun _ => readText_eq_ok_iff.mpr h

theorem denotes_encodeInt (n : ℕ) : (text (Hex.encodeInt n)).Denotes n := by
  rw [Hex.encodeInt_natCast]
  exact denotes_text (Hex.decode_encode n)

theorem readResidue_eq_ok_iff {v : Value} {name : String} {a : Residue m} :
    v.readResidue m name = .ok a ↔ v.Denotes a.val := by
  rw [readResidue, Except.bind_eq_ok_iff, ← readNumber_eq_ok_iff name]
  constructor
  · rintro ⟨n, hn, h⟩
    split at h
    · cases h
      exact hn
    · cases h
  · intro h
    refine ⟨a.val, h, ?_⟩
    rw [dif_pos a.val_lt]
    rfl

theorem readSums_eq_ok_iff {i : ℕ} {vs : List Value} {as : List (Residue m)} :
    readSums m i vs = .ok as ↔ List.Forall₂ (fun v a => v.Denotes a.val) vs as := by
  induction vs generalizing i as with
  | nil =>
    rw [readSums, Except.ok.injEq, List.forall₂_nil_left_iff]
    exact eq_comm
  | cons v vs ih =>
    rw [readSums, Except.bind_eq_ok_iff]
    constructor
    · rintro ⟨a, ha, h⟩
      rw [Except.bind_eq_ok_iff] at h
      obtain ⟨as', has', h⟩ := h
      cases h
      exact .cons (readResidue_eq_ok_iff.mp ha) (ih.mp has')
    · intro h
      cases h with
      | cons ha has =>
        refine ⟨_, readResidue_eq_ok_iff.mpr ha, ?_⟩
        rw [ih.mpr has]
        rfl

/-! ## Sequences and buffers -/

theorem readSequence_eq_ok_iff {v : Value} {vs : List Value} :
    v.readSequence = .ok vs ↔ v.items? = some vs := by
  cases v <;> simp [readSequence, isText, items?]

theorem readCount_eq_ok_iff {v : Value} {sums : ℕ} {n : ℤ} :
    v.readCount sums = .ok n ↔ v = .absent ∧ n = sums ∨ v = .integer n := by
  cases v <;> simp [readCount, eq_comm]

/-- A value that can be written so many bytes to. -/
def HasRoom (needed : ℕ) (v : Value) : Prop := ∃ data, v = .buffer data ∧ needed ≤ data.length

/-- Nothing at all, or a sequence of so many buffers with room for so many bytes each. -/
def Receives (needed count : ℕ) (v : Value) : Prop :=
  v = .absent ∨ ∃ vs, v.items? = some vs ∧ vs.length = count ∧ ∀ b ∈ vs, b.HasRoom needed

theorem checkBuffer_eq_ok_iff {v : Value} {needed i : ℕ} :
    v.checkBuffer needed i = .ok () ↔ v.HasRoom needed := by
  cases v <;> simp [checkBuffer, HasRoom]

theorem checkBufferList_eq_ok_iff {needed i : ℕ} {vs : List Value} :
    checkBufferList needed i vs = .ok () ↔ ∀ b ∈ vs, b.HasRoom needed := by
  induction vs generalizing i with
  | nil => simp [checkBufferList]
  | cons v vs ih =>
    rw [checkBufferList, Except.bind_eq_ok_iff, List.forall_mem_cons, ← ih (i := i + 1),
      ← checkBuffer_eq_ok_iff (i := i)]
    constructor
    · rintro ⟨⟨⟩, hv, hvs⟩
      exact ⟨hv, hvs⟩
    · rintro ⟨hv, hvs⟩
      exact ⟨(), hv, hvs⟩

theorem checkBuffers_eq_ok_iff {v : Value} {needed count : ℕ} :
    v.checkBuffers needed count = .ok () ↔ v.Receives needed count := by
  have hlist : ∀ vs : List Value,
      (if vs.length = count then checkBufferList needed 0 vs
        else .error (.bufferCount count vs.length)) = .ok () ↔
      vs.length = count ∧ ∀ b ∈ vs, b.HasRoom needed := by
    intro vs
    by_cases hlen : vs.length = count
    · rw [if_pos hlen, checkBufferList_eq_ok_iff]
      exact (and_iff_right hlen).symm
    · rw [if_neg hlen]
      constructor
      · intro h
        cases h
      · intro h
        exact absurd h.1 hlen
  unfold Receives
  cases v with
  | absent => simp [checkBuffers]
  | list vs => simpa [checkBuffers, items?] using hlist vs
  | tuple vs => simpa [checkBuffers, items?] using hlist vs
  | _ => simp [checkBuffers, items?]

end Value

/-! ## Requests -/

namespace Request

/-- What it means that a request poses a problem. -/
structure Poses (r : Request) (p : Problem) : Prop where
  /-- The modulus is given. -/
  modulus : r.modulus.Denotes p.modulus.value
  /-- The caller's own message is given. -/
  message : r.message.Denotes p.message.val
  /-- The power sums are given, in order. -/
  sums : ∃ vs, r.sums.items? = some vs ∧ List.Forall₂ (fun v s => v.Denotes s.val) vs p.sums
  /-- The number of messages is left out or that of the sums. -/
  count : r.count = .absent ∨ r.count = .integer p.count
  /-- There are two messages at least. -/
  two_le : 2 ≤ p.count
  /-- There are no more messages than residues. -/
  count_le : p.count ≤ p.modulus.value
  /-- There is a buffer for each message, or none at all. -/
  buffers : r.buffers.Receives p.modulus.bufferSize p.count

theorem readModulus_eq_ok_iff {r : Request} {n : ℕ} {m : Modulus} :
    r.readModulus n = .ok m ↔ r.modulus.Denotes m.value ∧ n ≤ m.value := by
  rw [readModulus, Except.bind_eq_ok_iff, ← Value.readNumber_eq_ok_iff "prime"]
  constructor
  · rintro ⟨p, hp, h⟩
    split at h
    · split at h
      · cases h
      · rename_i hn
        cases h
        exact ⟨hp, Nat.not_lt.mp hn⟩
    · cases h
  · rintro ⟨hm, hn⟩
    refine ⟨m.value, hm, ?_⟩
    rw [dif_pos m.two_le, if_neg (by omega)]
    rfl

/-- A request is well-formed exactly if it poses a problem. -/
theorem validate_eq_ok_iff {r : Request} {p : Problem} : r.validate = .ok p ↔ r.Poses p := by
  unfold validate
  simp only [Except.bind_eq_ok_iff]
  constructor
  · rintro ⟨vs, hvs, n, hn, h⟩
    split at h
    · cases h
    rename_i htwo
    split at h
    · cases h
    rename_i hlen
    simp only [Except.bind_eq_ok_iff] at h
    obtain ⟨m, hm, own, hown, sums, hsums, ⟨⟩, hbuffers, h⟩ := h
    cases h
    obtain ⟨hmodulus, hle⟩ := readModulus_eq_ok_iff.mp hm
    have hall := Value.readSums_eq_ok_iff.mp hsums
    have hcount : vs.length = sums.length := hall.length_eq
    rw [hcount] at hn hlen hle hbuffers
    refine ⟨hmodulus, Value.readResidue_eq_ok_iff.mp hown, ⟨vs, Value.readSequence_eq_ok_iff.mp hvs,
      hall⟩, ?_, ?_, hle, Value.checkBuffers_eq_ok_iff.mp hbuffers⟩
    · rcases Value.readCount_eq_ok_iff.mp hn with ⟨habsent, -⟩ | hgiven
      · exact .inl habsent
      · right
        rw [hgiven, ← not_not.mp hlen]
        rfl
    · show 2 ≤ sums.length
      omega
  · intro h
    obtain ⟨vs, hvs, hsums⟩ := h.sums
    have hcount : vs.length = p.count := hsums.length_eq
    have htwo := h.two_le
    refine ⟨vs, Value.readSequence_eq_ok_iff.mpr hvs, p.count, ?_, ?_⟩
    · rw [Value.readCount_eq_ok_iff, hcount]
      exact h.count.imp (fun habsent => ⟨habsent, rfl⟩) id
    · rw [if_neg (by omega), if_neg (by simp [hcount])]
      simp only [Except.bind_eq_ok_iff, hcount]
      exact ⟨_, readModulus_eq_ok_iff.mpr ⟨h.modulus, h.count_le⟩,
        _, Value.readResidue_eq_ok_iff.mpr h.message, _, Value.readSums_eq_ok_iff.mpr hsums,
        (), Value.checkBuffers_eq_ok_iff.mpr h.buffers, rfl⟩

/-- A request poses one problem at most. -/
theorem Poses.unique {r : Request} {p p' : Problem} (h : r.Poses p) (h' : r.Poses p') : p = p' :=
  Except.ok.inj ((validate_eq_ok_iff.mpr h).symm.trans (validate_eq_ok_iff.mpr h'))

/-- Numbers in hexadecimal digits pose a problem whenever there are enough of them, and not too many
for the modulus. -/
theorem poses_ofIntegers {p : Problem} (htwo : 2 ≤ p.count) (hle : p.count ≤ p.modulus.value) :
    (ofIntegers p.modulus.value p.message.val (p.sums.map fun s => (s.val : ℤ))).Poses p := by
  refine ⟨Value.denotes_encodeInt _, Value.denotes_encodeInt _, ⟨_, rfl, ?_⟩, .inl rfl, htwo, hle,
    .inl rfl⟩
  rw [List.map_map, List.map_map, List.forall₂_map_left_iff, List.forall₂_same]
  intro s _
  exact Value.denotes_encodeInt s.val

end Request

end MultisetRecovery

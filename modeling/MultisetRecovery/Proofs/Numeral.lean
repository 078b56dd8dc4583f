import MultisetRecovery.Proofs.Spelling

/-!
# Which values are numbers

A text is a number exactly if it has digits, and nothing else, and the number is then written as
that text in lower case without its leading zeros. Bytes are read as their text up to the first
zero byte, integers as they are, and nothing else is a number. So what is read is what is spelled
(`denotes_iff_spells`), and everything that can be asked about reading can be asked about
spellings.
-/

namespace MultisetRecovery

/-! ## Digits and texts -/

namespace Hex

/-- A digit of either case. -/
def IsDigit (c : Char) : Prop := ('0' ≤ c ∧ c ≤ '9') ∨ ('a' ≤ c ∧ c ≤ 'f') ∨ ('A' ≤ c ∧ c ≤ 'F')

instance (c : Char) : Decidable (IsDigit c) :=
  inferInstanceAs (Decidable (('0' ≤ c ∧ c ≤ '9') ∨ ('a' ≤ c ∧ c ≤ 'f') ∨ ('A' ≤ c ∧ c ≤ 'F')))

/-- A text of digits, one at least. -/
def IsNumeral (s : String) : Prop := s ≠ "" ∧ ∀ c ∈ s.toList, IsDigit c

instance (s : String) : Decidable (IsNumeral s) :=
  decidable_of_iff (s ≠ "" ∧ s.toList.all (IsDigit ·) = true) (by simp [IsNumeral])

/-- Digits in lower case without the zeros before them. Of zeros alone one is kept. -/
def normalize (cs : List Char) : List Char :=
  let ds := (cs.map Char.toLower).dropWhile (· = '0')
  if ds.isEmpty then ['0'] else ds

theorem exists_digit?_iff {c : Char} : (∃ d, digit? c = some d) ↔ IsDigit c := by
  unfold digit? IsDigit
  split_ifs with h₁ h₂ h₃ <;> simp [*]

theorem toLower_of_digit? {c : Char} {d : ℕ} (h : digit? c = some d) :
    d < 16 ∧ c.toLower = digit d := by
  have hall : ∀ n : Fin 128, ∀ d ∈ digit? (Char.ofNat n),
      d < 16 ∧ (Char.ofNat n).toLower = digit d := by decide
  have hchar := hall ⟨c.toNat, (toNat_of_digit? h).2⟩
  rw [Char.ofNat_toNat] at hchar
  exact hchar d h

theorem exists_decodeFrom_iff (acc : ℕ) {cs : List Char} :
    (∃ n, decodeFrom acc cs = some n) ↔ ∀ c ∈ cs, IsDigit c := by
  induction cs generalizing acc with
  | nil => simp [decodeFrom]
  | cons c cs ih =>
    rw [List.forall_mem_cons, ← exists_digit?_iff]
    constructor
    · rintro ⟨n, h⟩
      obtain ⟨d, hd, hrest⟩ := Option.bind_eq_some_iff.mp h
      exact ⟨⟨d, hd⟩, (ih _).mp ⟨n, hrest⟩⟩
    · rintro ⟨⟨d, hd⟩, hcs⟩
      obtain ⟨n, hn⟩ := (ih _).mpr hcs
      exact ⟨n, Option.bind_eq_some_iff.mpr ⟨d, hd, hn⟩⟩

theorem digits_of_lt {d : ℕ} (hd : d < 16) : digits d = [digit d] := by
  rw [digits, if_pos hd]

theorem digits_mul_add {v d : ℕ} (hv : v ≠ 0) (hd : d < 16) :
    digits (16 * v + d) = digits v ++ [digit d] := by
  have hlarge : ¬ 16 * v + d < 16 := by omega
  have hdiv : (16 * v + d) / 16 = v := by omega
  have hmod : (16 * v + d) % 16 = d := by omega
  rw [digits, if_neg hlarge, hdiv, hmod]

/-- Digits spell the number that they are read as. -/
theorem spells_of_decodeFrom {cs : List Char} {n : ℕ} (hne : cs ≠ [])
    (h : decodeFrom 0 cs = some n) : Spells cs n := by
  induction cs using List.reverseRecOn generalizing n with
  | nil => exact absurd rfl hne
  | append_singleton cs c ih =>
    rw [decodeFrom_append] at h
    obtain ⟨v, hv, hlast⟩ := Option.bind_eq_some_iff.mp h
    obtain ⟨d, hd, hn⟩ := Option.bind_eq_some_iff.mp hlast
    obtain ⟨hlt, hlower⟩ := toLower_of_digit? hd
    cases hn
    unfold Spells
    rw [List.map_append, List.map_singleton, hlower]
    by_cases hcs : cs = []
    · subst hcs
      cases hv
      exact ⟨0, by rw [mul_zero, zero_add, digits_of_lt hlt]; rfl⟩
    obtain ⟨zeros, hzeros⟩ := ih hcs hv
    rw [hzeros]
    by_cases hv0 : v = 0
    · -- All digits before the last are zeros, and the one that was kept of them is not needed.
      refine ⟨zeros + 1, ?_⟩
      rw [hv0, mul_zero, zero_add, digits_of_lt (by decide), digits_of_lt hlt,
        List.replicate_succ']
      rfl
    · exact ⟨zeros, by rw [digits_mul_add hv0 hlt, List.append_assoc]⟩

theorem decode_eq_some_iff {s : String} {n : ℕ} : decode s = some n ↔ Spells s.toList n := by
  constructor
  · intro h
    rw [decode, decodeChars] at h
    split at h
    · cases h
    · rename_i hne
      exact spells_of_decodeFrom (by simpa using hne) h
  · intro h
    rw [← h.decode_eq, String.ofList_toList]

theorem exists_decode_iff {s : String} : (∃ n, decode s = some n) ↔ IsNumeral s := by
  rw [IsNumeral, ← exists_decodeFrom_iff 0, decode, decodeChars]
  by_cases hs : s = ""
  · simp [hs]
  · have hne : s.toList ≠ [] := by simpa using hs
    rw [List.isEmpty_eq_false_iff.mpr hne, if_neg Bool.false_ne_true]
    exact (and_iff_right hs).symm

theorem decode_eq_none {s : String} (h : ¬ IsNumeral s) : decode s = none := by
  rw [← exists_decode_iff] at h
  exact Option.eq_none_iff_forall_ne_some.mpr fun n hn => h ⟨n, hn⟩

/-- What is spelled in any way is written in one. -/
theorem Spells.normalize_eq {cs : List Char} {n : ℕ} (h : Spells cs n) :
    normalize cs = digits n := by
  obtain ⟨zeros, hcs⟩ := h
  have hdrop : (cs.map Char.toLower).dropWhile (· = '0') = (digits n).dropWhile (· = '0') := by
    rw [hcs, List.dropWhile_append_of_pos]
    intro c hc
    rw [List.eq_of_mem_replicate hc]
    rfl
  rw [normalize, hdrop]
  by_cases hn : n = 0
  · rw [hn, digits_of_lt (by decide)]
    rfl
  · obtain ⟨c, ds, hcons⟩ := List.exists_cons_of_ne_nil (digits_ne_nil n)
    have hc : c ≠ '0' := by
      rintro rfl
      exact head?_digits_ne hn (by rw [hcons]; rfl)
    rw [hcons, List.dropWhile_cons_of_neg (by simpa using hc)]
    rfl

theorem encode_of_decode {s : String} {n : ℕ} (h : decode s = some n) :
    encode n = .ofList (normalize s.toList) := by
  rw [(decode_eq_some_iff.mp h).normalize_eq]
  rfl

theorem length_encode_le {u v : ℕ} (h : u ≤ v) : (encode u).length ≤ (encode v).length := by
  rw [← String.length_toList, ← String.length_toList, toList_encode, toList_encode]
  exact width_le_width h

end Hex

/-! ## Values -/

namespace Value

variable {v : Value} {n : ℕ} {name : String}

theorem readText_of_isNumeral {s : String} (h : Hex.IsNumeral s) :
    ∃ n, readText name s = .ok n ∧ Hex.encode n = .ofList (Hex.normalize s.toList) := by
  obtain ⟨n, hn⟩ := Hex.exists_decode_iff.mpr h
  exact ⟨n, readText_eq_ok_iff.mpr hn, Hex.encode_of_decode hn⟩

theorem readText_of_not_isNumeral {s : String} (h : ¬ Hex.IsNumeral s) :
    readText name s = .error (.notHex name s) := by
  rw [readText, Hex.decode_eq_none h]

/-- The bytes begin with a text of ASCII, which is all of them or is followed by a zero byte. -/
def Carries (data : List UInt8) (cs : List Char) : Prop :=
  (∀ c ∈ cs, 0 < c.toNat ∧ c.toNat < 128) ∧
    ∃ rest, data = codes cs ++ rest ∧ (rest = [] ∨ ∃ more, rest = 0 :: more)

/-- There is a byte outside ASCII, and no zero byte before it. -/
def LeavesAscii (data : List UInt8) : Prop :=
  ∃ raw b rest, data = raw ++ b :: rest ∧ (∀ x ∈ raw, x ≠ 0) ∧ 128 ≤ b.toNat

theorem carries_or_leavesAscii (data : List UInt8) :
    (∃ cs, Carries data cs) ∨ LeavesAscii data := by
  induction data with
  | nil => exact .inl ⟨[], by simp, [], rfl, .inl rfl⟩
  | cons b data ih =>
    by_cases hzero : b = 0
    · exact .inl ⟨[], by simp, b :: data, rfl, .inr ⟨data, by rw [hzero]⟩⟩
    by_cases hlarge : 128 ≤ b.toNat
    · exact .inr ⟨[], b, data, rfl, by simp, hlarge⟩
    have hcode : (Char.ofNat b.toNat).toNat = b.toNat := by
      have hall : ∀ k : Fin 128, (Char.ofNat k).toNat = k := by decide
      exact hall ⟨b.toNat, not_le.mp hlarge⟩
    have hpos : 0 < b.toNat := by
      rw [Nat.pos_iff_ne_zero, Ne, ← UInt8.toNat_zero, UInt8.toNat_inj]
      exact hzero
    rcases ih with ⟨cs, hascii, rest, hdata, hrest⟩ | ⟨raw, x, rest, hdata, hraw, hx⟩
    · refine .inl ⟨Char.ofNat b.toNat :: cs, ?_, rest, ?_, hrest⟩
      · rw [List.forall_mem_cons, hcode]
        exact ⟨⟨hpos, not_le.mp hlarge⟩, hascii⟩
      · rw [codes, List.map_cons, hcode, UInt8.ofNat_toNat, List.cons_append, hdata]
        rfl
    · refine .inr ⟨b :: raw, x, rest, by rw [hdata, List.cons_append], ?_, hx⟩
      rw [List.forall_mem_cons]
      exact ⟨hzero, hraw⟩

theorem Carries.readBytes_eq {data : List UInt8} {cs : List Char} (h : Carries data cs) :
    readBytes name data = readText name (.ofList cs) := by
  obtain ⟨hascii, rest, rfl, hrest⟩ := h
  exact readBytes_codes_append hascii hrest name

theorem LeavesAscii.readBytes_eq {data : List UInt8} (h : LeavesAscii data) :
    readBytes name data = .error (.notAscii name) := by
  obtain ⟨raw, b, rest, rfl, hraw, hb⟩ := h
  have hne : b ≠ 0 := by
    rintro rfl
    exact absurd hb (by decide)
  have hread : b ∈ (raw ++ b :: rest).takeWhile (· ≠ 0) := by
    rw [List.takeWhile_append_of_pos fun x hx => by simpa using hraw x hx,
      List.takeWhile_cons_of_pos (by simpa using hne)]
    exact List.mem_append_right _ List.mem_cons_self
  simp only [readBytes]
  rw [if_neg]
  rw [List.all_eq_true]
  intro hall
  have hlt := hall b hread
  rw [decide_eq_true_iff, UInt8.lt_iff_toNat_lt] at hlt
  exact absurd hlt (not_lt.mpr hb)

theorem spells_of_readBytes {data : List UInt8} (h : readBytes name data = .ok n) :
    ∃ cs rest, data = codes cs ++ rest ∧ Hex.Spells cs n ∧
      (rest = [] ∨ ∃ more, rest = 0 :: more) := by
  rcases carries_or_leavesAscii data with ⟨cs, hcs⟩ | hleaves
  · rw [hcs.readBytes_eq, readText_eq_ok_iff, Hex.decode_eq_some_iff, String.toList_ofList] at h
    obtain ⟨-, rest, hdata, hrest⟩ := hcs
    exact ⟨cs, rest, hdata, h, hrest⟩
  · cases h.symm.trans hleaves.readBytes_eq

/-- A number is read exactly from its spellings. -/
theorem readNumber_eq_ok_iff_spells (name : String) : v.readNumber name = .ok n ↔ v.Spells n := by
  constructor
  · intro h
    cases v with
    | text s => exact .text (Hex.decode_eq_some_iff.mp (readText_eq_ok_iff.mp h))
    | integer k =>
      rw [readNumber] at h
      split at h
      · cases h
      · rename_i hk
        obtain rfl : k.toNat = n := Except.ok.inj h
        have hspells := Spells.integer k.toNat
        rwa [Int.toNat_of_nonneg (not_lt.mp hk)] at hspells
    | bytes data =>
      obtain ⟨cs, rest, rfl, hcs, hrest⟩ := spells_of_readBytes h
      exact .bytes hcs hrest
    | buffer data =>
      obtain ⟨cs, rest, rfl, hcs, hrest⟩ := spells_of_readBytes h
      exact .buffer hcs hrest
    | truth b => cases h
    | absent => cases h
    | list vs => cases h
    | tuple vs => cases h
    | real => cases h
    | thing => cases h
  · intro h
    exact h.denotes name

theorem denotes_iff_spells : v.Denotes n ↔ v.Spells n := by
  rw [← readNumber_eq_ok_iff_spells "", readNumber_eq_ok_iff]

/-- What is written reads back, in digits of lower case without leading zeros, and larger numbers
have no fewer of them. A text is read if it is a numeral, and then as the number that is written as
the text in lower case without its leading zeros; bytes are read as the text that they carry;
integers are taken as they are. All else is refused. -/
theorem readNumber_grammar (name : String) :
    (∀ n : ℕ, (integer n).encodeHex = .ok (Hex.encode n) ∧ Hex.Writes (Hex.encode n) n ∧
      (text (Hex.encode n)).readNumber name = .ok n) ∧
    (∀ u v : ℕ, u ≤ v → (Hex.encode u).length ≤ (Hex.encode v).length) ∧
    (∀ s, Hex.IsNumeral s → ∃ n, (text s).readNumber name = .ok n ∧
      Hex.encode n = .ofList (Hex.normalize s.toList)) ∧
    (∀ s, ¬ Hex.IsNumeral s → (text s).readNumber name = .error (.notHex name s)) ∧
    (∀ data, ((∃ cs, Carries data cs) ∨ LeavesAscii data) ∧
      (∀ cs, Carries data cs →
        (bytes data).readNumber name = (text (.ofList cs)).readNumber name) ∧
      (LeavesAscii data → (bytes data).readNumber name = .error (.notAscii name)) ∧
      (buffer data).readNumber name = (bytes data).readNumber name) ∧
    (∀ n : ℕ, (integer n).readNumber name = .ok n) ∧
    (∀ k : ℤ, k < 0 → (integer k).readNumber name = .error (.negative name k)) ∧
    ∀ v, v.isText = false → (∀ k, v ≠ integer k) →
      v.readNumber name = .error (.notNumber name v.kind) := by
  refine ⟨fun n => ⟨?_, Hex.writes_encode n, ?_⟩, fun _ _ => Hex.length_encode_le,
    fun _ => readText_of_isNumeral, fun _ => readText_of_not_isNumeral,
    fun data => ⟨carries_or_leavesAscii data, fun _ => Carries.readBytes_eq,
      LeavesAscii.readBytes_eq, rfl⟩, fun n => ?_, fun k hk => ?_, fun v htext hinteger => ?_⟩
  · rw [encodeHex, Hex.encodeInt_natCast]
  · exact readText_eq_ok_iff.mpr (Hex.decode_encode n)
  · exact (Spells.integer n).denotes name
  · rw [readNumber, if_pos hk]
  · cases v with
    | text s => cases htext
    | bytes data => cases htext
    | buffer data => cases htext
    | integer k => exact absurd rfl (hinteger k)
    | truth b => rfl
    | absent => rfl
    | list vs => rfl
    | tuple vs => rfl
    | real => rfl
    | thing => rfl

/-- Zeros before digits of both cases, a mark before digits, bytes behind a zero byte and outside
ASCII, and a truth value. -/
theorem readNumber_grammar_ffa :
    Hex.IsNumeral "00fFA" ∧
      (∃ n, (text "00fFA").readNumber "value" = .ok n ∧ Hex.encode n = "ffa") ∧
      (text "0x1f").readNumber "value" = .error (.notHex "value" "0x1f") ∧
      (bytes [0x31, 0x66, 0, 0xc3]).readNumber "value" = (text "1f").readNumber "value" ∧
      (buffer [0x31, 0xc3, 0]).readNumber "value" = .error (.notAscii "value") ∧
      (truth true).readNumber "value" = .error (.notNumber "value" "bool") := by
  obtain ⟨-, -, hnumeral, hother, hbytes, -, -, hrefused⟩ := readNumber_grammar "value"
  have hdigits : Hex.IsNumeral "00fFA" := by decide +kernel
  obtain ⟨n, hn, hencode⟩ := hnumeral "00fFA" hdigits
  refine ⟨hdigits, ⟨n, hn, ?_⟩, hother "0x1f" (by decide +kernel), ?_, ?_, ?_⟩
  · rw [hencode]
    decide +kernel
  · obtain ⟨-, hcarries, -, -⟩ := hbytes [0x31, 0x66, 0, 0xc3]
    exact hcarries ['1', 'f'] ⟨by simp, [0, 0xc3], rfl, .inr ⟨[0xc3], rfl⟩⟩
  · obtain ⟨-, -, hleaves, hbuffer⟩ := hbytes [0x31, 0xc3, 0]
    rw [hbuffer]
    exact hleaves ⟨[0x31], 0xc3, [0], rfl, by simp, by simp⟩
  · exact hrefused (.truth true) rfl (by simp)

end Value

end MultisetRecovery

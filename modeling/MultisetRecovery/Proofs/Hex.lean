import Mathlib.Data.List.Basic
import MultisetRecovery.Hex

/-!
# Hexadecimal numbers are written in one way

What is written reads back, and it is written in digits of lower case and without padding.
-/

namespace MultisetRecovery.Hex

/-! ## Digits -/

theorem digit?_digit {n : ℕ} (h : n < 16) : digit? (digit n) = some n := by
  have hall : ∀ n : Fin 16, digit? (digit n) = some n.val := by decide
  exact hall ⟨n, h⟩

/-- A digit of lower case. -/
def IsLowerDigit (c : Char) : Prop := ('0' ≤ c ∧ c ≤ '9') ∨ ('a' ≤ c ∧ c ≤ 'f')

instance (c : Char) : Decidable (IsLowerDigit c) :=
  inferInstanceAs (Decidable (('0' ≤ c ∧ c ≤ '9') ∨ ('a' ≤ c ∧ c ≤ 'f')))

theorem digit_ne_zero {n : ℕ} (h : n < 16) (hn : n ≠ 0) : digit n ≠ '0' := by
  have hall : ∀ n : Fin 16, n.val ≠ 0 → digit n ≠ '0' := by decide
  exact hall ⟨n, h⟩ hn

/-- Digits of either case lie between the zero byte and the end of ASCII. -/
theorem toNat_of_digit? {c : Char} {k : ℕ} (h : digit? c = some k) :
    0 < c.toNat ∧ c.toNat < 128 := by
  have hbounds : ∀ lo hi : Char, lo ≤ c → c ≤ hi → lo.toNat ≤ c.toNat ∧ c.toNat ≤ hi.toNat :=
    fun lo hi hlo hhi => ⟨Char.le_def.mp hlo, Char.le_def.mp hhi⟩
  unfold digit? at h
  split at h
  · rename_i hc
    obtain ⟨hlo, hhi⟩ : 48 ≤ c.toNat ∧ c.toNat ≤ 57 := hbounds '0' '9' hc.1 hc.2
    omega
  · split at h
    · rename_i hc
      obtain ⟨hlo, hhi⟩ : 97 ≤ c.toNat ∧ c.toNat ≤ 102 := hbounds 'a' 'f' hc.1 hc.2
      omega
    · split at h
      · rename_i hc
        obtain ⟨hlo, hhi⟩ : 65 ≤ c.toNat ∧ c.toNat ≤ 70 := hbounds 'A' 'F' hc.1 hc.2
        omega
      · cases h

/-! ## Numbers -/

theorem digits_ne_nil (n : ℕ) : digits n ≠ [] := by
  rw [digits]
  split
  · exact List.cons_ne_nil _ _
  · exact List.concat_ne_nil _ _

/-- What holds of all digits holds of those that a number is written in. -/
theorem forall_mem_digits {P : Char → Prop} (h : ∀ k : Fin 16, P (digit k)) (n : ℕ) :
    ∀ c ∈ digits n, P c := by
  fun_induction digits n with
  | case1 n hn =>
    intro c hc
    rw [List.mem_singleton.mp hc]
    exact h ⟨n, hn⟩
  | case2 n hn ih =>
    intro c hc
    rcases List.mem_append.mp hc with hhigh | hlow
    · exact ih c hhigh
    · rw [List.mem_singleton.mp hlow]
      exact h ⟨n % 16, Nat.mod_lt n (by decide)⟩

theorem isLowerDigit_of_mem_digits {n : ℕ} {c : Char} (h : c ∈ digits n) : IsLowerDigit c :=
  forall_mem_digits (by decide) n c h

/-- A smaller number has no more digits. -/
theorem width_le_width {u v : ℕ} (h : u ≤ v) : width u ≤ width v := by
  unfold width
  fun_induction digits u generalizing v with
  | case1 u hu => exact List.length_pos_iff.mpr (digits_ne_nil v)
  | case2 u hu ih =>
    have hv : ¬ v < 16 := by omega
    rw [digits.eq_1 v, if_neg hv, List.length_append, List.length_append]
    exact Nat.add_le_add_right (ih (Nat.div_le_div_right h)) 1

/-- Only zero begins with the digit zero. -/
theorem head?_digits_ne {n : ℕ} (hn : n ≠ 0) : (digits n).head? ≠ some '0' := by
  fun_induction digits n with
  | case1 n hlt =>
    intro h
    exact digit_ne_zero hlt hn (Option.some.inj h)
  | case2 n hlt ih =>
    rw [List.head?_append_of_ne_nil _ (digits_ne_nil _)]
    exact ih (by omega)

theorem decodeFrom_append (acc : ℕ) (cs ds : List Char) :
    decodeFrom acc (cs ++ ds) = (decodeFrom acc cs).bind fun v => decodeFrom v ds := by
  induction cs generalizing acc with
  | nil => rfl
  | cons c cs ih =>
    rw [List.cons_append, decodeFrom, decodeFrom]
    cases digit? c with
    | none => rfl
    | some d => exact ih (16 * acc + d)

theorem toNat_of_decodeFrom {acc n : ℕ} {cs : List Char} (h : decodeFrom acc cs = some n) :
    ∀ c ∈ cs, 0 < c.toNat ∧ c.toNat < 128 := by
  induction cs generalizing acc with
  | nil => simp
  | cons c cs ih =>
    obtain ⟨k, hk, hrest⟩ := Option.bind_eq_some_iff.mp h
    intro d hd
    rcases List.mem_cons.mp hd with rfl | hd
    · exact toNat_of_digit? hk
    · exact ih hrest d hd

theorem decodeFrom_digits (n : ℕ) : decodeFrom 0 (digits n) = some n := by
  fun_induction digits n with
  | case1 n hn => simp [decodeFrom, digit?_digit hn]
  | case2 n hn ih =>
    have hdigit := digit?_digit (Nat.mod_lt n (show 16 > 0 by decide))
    rw [decodeFrom_append, ih]
    simp [decodeFrom, hdigit, Nat.div_add_mod]

/-! ## Texts -/

@[simp]
theorem toList_encode (n : ℕ) : (encode n).toList = digits n := String.toList_ofList

@[simp]
theorem decode_encode (n : ℕ) : decode (encode n) = some n := by
  rw [decode, decodeChars, toList_encode, List.isEmpty_eq_false_iff.mpr (digits_ne_nil n),
    if_neg Bool.false_ne_true, decodeFrom_digits]

theorem encodeInt_natCast (n : ℕ) : encodeInt n = encode n := by
  rw [encodeInt, if_neg (by omega), Int.natAbs_natCast]

/-- A text of lower-case digits without padding that stands for a number. -/
structure Writes (s : String) (n : ℕ) : Prop where
  /-- The text reads as the number. -/
  decode_eq : decode s = some n
  /-- All digits are of lower case. -/
  lower : ∀ c ∈ s.toList, IsLowerDigit c
  /-- A leading zero is the only digit. -/
  unpadded : s.toList.head? = some '0' → s = "0"

theorem writes_encode (n : ℕ) : Writes (encode n) n := by
  refine ⟨decode_encode n, ?_, ?_⟩
  · intro c hc
    rw [toList_encode] at hc
    exact isLowerDigit_of_mem_digits hc
  · intro h
    rw [toList_encode] at h
    by_cases hn : n = 0
    · rw [hn, encode, digits, if_pos (by decide)]
      rfl
    · exact absurd h (head?_digits_ne hn)

end MultisetRecovery.Hex

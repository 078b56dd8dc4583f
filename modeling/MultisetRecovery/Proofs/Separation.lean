import Mathlib.NumberTheory.JacobiSum.Basic
import MultisetRecovery.Proofs.SquareClass

/-!
# Half of the shifts separate

Take the quadratic characters of `r + a` and `s + a` for all shifts `a` modulo an odd prime. If `r`
and `s` are distinct then the products of the two add up to `-1`. A product is `-1` if the shift
separates `r` from `s`, and `1` if it does not, apart from the two shifts at which it is zero. So
the shifts that separate `r` from `s` are at least half of those other than zero, and they separate
every list of residues that has both. An attempt to split that draws any of them succeeds.
-/

namespace MultisetRecovery

section Character

variable {p : ℕ} [Fact p.Prime]

/-- The character sum over the pairs of residues at a fixed distance. -/
theorem sum_quadraticChar_mul_add (hp : p ≠ 2) {c : ZMod p} (hc : c ≠ 0) :
    ∑ x : ZMod p, quadraticChar (ZMod p) x * quadraticChar (ZMod p) (x + c) = -1 := by
  have hchar : ringChar (ZMod p) ≠ 2 := by rwa [ZMod.ringChar_zmod_n]
  have hinv : (quadraticChar (ZMod p))⁻¹ = quadraticChar (ZMod p) :=
    (quadraticChar_isQuadratic (ZMod p)).inv
  have hjacobi := jacobiSum_nontrivial_inv (quadraticChar_ne_one hchar)
  rw [hinv, jacobiSum] at hjacobi
  have hscale : ∀ y : ZMod p,
      quadraticChar (ZMod p) (-c * y) * quadraticChar (ZMod p) (-c * y + c) =
        quadraticChar (ZMod p) (-1) *
          (quadraticChar (ZMod p) y * quadraticChar (ZMod p) (1 - y)) := by
    intro y
    have hsum : -c * y + c = c * (1 - y) := by ring
    have hneg : -c = -1 * c := by ring
    have hsquare := quadraticChar_sq_one hc
    rw [hsum, hneg, map_mul, map_mul, map_mul]
    linear_combination quadraticChar (ZMod p) (-1) * quadraticChar (ZMod p) y *
      quadraticChar (ZMod p) (1 - y) * hsquare
  have hone := quadraticChar_sq_one (F := ZMod p) (a := -1) (by simp)
  calc ∑ x : ZMod p, quadraticChar (ZMod p) x * quadraticChar (ZMod p) (x + c)
      = ∑ y : ZMod p, quadraticChar (ZMod p) (-c * y) * quadraticChar (ZMod p) (-c * y + c) :=
        (Equiv.sum_comp (Equiv.mulLeft₀ (-c) (neg_ne_zero.mpr hc)) _).symm
    _ = quadraticChar (ZMod p) (-1) *
          ∑ y : ZMod p, quadraticChar (ZMod p) y * quadraticChar (ZMod p) (1 - y) := by
        rw [Finset.mul_sum]
        exact Finset.sum_congr rfl fun y _ => hscale y
    _ = -1 := by
        rw [hjacobi]
        linear_combination -hone

theorem sum_quadraticChar_shifts (hp : p ≠ 2) {r s : ZMod p} (hrs : r ≠ s) :
    ∑ a : ZMod p, quadraticChar (ZMod p) (r + a) * quadraticChar (ZMod p) (s + a) = -1 := by
  have hc : s - r ≠ 0 := sub_ne_zero.mpr hrs.symm
  rw [← sum_quadraticChar_mul_add hp hc]
  conv_rhs => rw [← Equiv.sum_comp (Equiv.addLeft r)]
  refine Finset.sum_congr rfl fun a _ => ?_
  have hs : s + a = r + a + (s - r) := by ring
  rw [hs]
  rfl

/-- A shift takes just one of two residues to a non-zero square. -/
def Shift.Parts (r s a : ZMod p) : Prop :=
  ¬ (quadraticChar (ZMod p) (r + a) = 1 ↔ quadraticChar (ZMod p) (s + a) = 1)

instance (r s a : ZMod p) : Decidable (Shift.Parts r s a) := inferInstanceAs (Decidable (¬ _))

theorem Shift.Parts.symm {r s a : ZMod p} (h : Shift.Parts r s a) : Shift.Parts s r a :=
  fun hiff => h hiff.symm

theorem Shift.parts_of_eq {r s a : ZMod p} (hr : quadraticChar (ZMod p) (r + a) = 1)
    (hs : quadraticChar (ZMod p) (s + a) = -1) : Shift.Parts r s a := by
  rw [Shift.Parts, hr, hs]
  norm_num

/-- A shift that leaves two residues together makes the product one, unless it takes one of them to
zero. -/
theorem one_sub_mul_le (r s a : ZMod p) :
    1 - quadraticChar (ZMod p) (r + a) * quadraticChar (ZMod p) (s + a) ≤
      2 * (if Shift.Parts r s a then 1 else 0) + (if a = -r then 1 else 0) +
        (if a = -s then 1 else 0) := by
  have hnonneg : ∀ (P : Prop) [Decidable P], (0 : ℤ) ≤ if P then 1 else 0 := by
    intro P _
    split <;> norm_num
  have hparts := hnonneg (Shift.Parts r s a)
  have hr := hnonneg (a = -r)
  have hs := hnonneg (a = -s)
  by_cases hr0 : r + a = 0
  · rw [hr0, MulChar.map_zero, if_pos (eq_neg_of_add_eq_zero_right hr0)]
    linarith
  by_cases hs0 : s + a = 0
  · rw [hs0, MulChar.map_zero, if_pos (eq_neg_of_add_eq_zero_right hs0)]
    linarith
  rcases quadraticChar_dichotomy hr0 with h | h
  · rcases quadraticChar_dichotomy hs0 with h' | h'
    · rw [h, h']
      linarith
    · rw [h, h', if_pos (Shift.parts_of_eq h h')]
      linarith
  · rcases quadraticChar_dichotomy hs0 with h' | h'
    · rw [h, h', if_pos (Shift.parts_of_eq h' h).symm]
      linarith
    · rw [h, h']
      linarith

theorem le_two_mul_card_parts (hp : p ≠ 2) {r s : ZMod p} (hrs : r ≠ s) :
    p - 1 ≤ 2 * (Finset.univ.filter fun a => Shift.Parts r s a).card := by
  have hsum := Finset.sum_le_sum fun (a : ZMod p) (_ : a ∈ Finset.univ) => one_sub_mul_le r s a
  rw [Finset.sum_sub_distrib, sum_quadraticChar_shifts hp hrs, Finset.sum_add_distrib,
    Finset.sum_add_distrib, ← Finset.mul_sum, Finset.sum_boole, Finset.sum_ite_eq',
    Finset.sum_ite_eq', Finset.sum_const, Finset.card_univ, ZMod.card] at hsum
  simp only [Finset.mem_univ, if_true, mul_one, nsmul_eq_mul] at hsum
  omega

end Character

variable {m : Modulus}

namespace Poly

/-- The shifts that separate a proper part of `h`, in ascending order. -/
def properShifts (h : Poly m) : List (Residue m) :=
  ((List.range m.value).map (Residue.ofNat m)).filter fun a =>
    match h.squareClass a with
    | .ok g => h.IsProperPart g
    | .error _ => false

theorem mem_properShifts {h : Poly m} {a : Residue m} :
    a ∈ h.properShifts ↔ ∃ g, h.squareClass a = .ok g ∧ h.IsProperPart g := by
  rw [properShifts, List.mem_filter, and_iff_right a.mem_map_ofNat_range]
  cases h.squareClass a with
  | error e => simp
  | ok g => simp

theorem pairwise_properShifts (h : Poly m) :
    h.properShifts.Pairwise fun a b => a.val < b.val :=
  (Residue.pairwise_map_ofNat_range m).filter _

theorem nodup_properShifts (h : Poly m) : h.properShifts.Nodup :=
  h.pairwise_properShifts.imp fun hab heq => (heq ▸ hab).false

end Poly

section Prime

variable [Fact m.value.Prime] {rs : List (Residue m)}

theorem Residue.isNonzeroSquare_iff_quadraticChar {a : Residue m} :
    a.IsNonzeroSquare ↔ quadraticChar (ZMod m.value) a.toZMod = 1 := by
  rw [isNonzeroSquare_iff]
  by_cases ha : a.toZMod = 0
  · rw [ha, MulChar.map_zero]
    simp
  · rw [quadraticChar_one_iff_isSquare ha]
    exact and_iff_right ha

theorem Shift.separates_of_parts {r s a : Residue m} (hr : r ∈ rs) (hs : s ∈ rs)
    (h : Shift.Parts r.toZMod s.toZMod a.toZMod) : Shift.Separates a rs := by
  rw [Shift.Parts, ← Residue.toZMod_add, ← Residue.toZMod_add,
    ← Residue.isNonzeroSquare_iff_quadraticChar, ← Residue.isNonzeroSquare_iff_quadraticChar] at h
  by_cases hsquare : (r + a).IsNonzeroSquare
  · have hother : ¬ (s + a).IsNonzeroSquare := fun hs' => h (iff_of_true hsquare hs')
    exact ⟨⟨r, hr, hsquare⟩, s, hs, hother⟩
  · have hother : (s + a).IsNonzeroSquare := by
      by_contra hs'
      exact h (iff_of_false hsquare hs')
    exact ⟨⟨s, hs, hother⟩, r, hr, hsquare⟩

theorem Poly.mem_properShifts_ofRoots (hodd : m.value ≠ 2) (hrs : rs.Nodup) {a : Residue m} :
    a ∈ (ofRoots rs).properShifts ↔ Shift.Separates a rs := by
  rw [mem_properShifts, squareClass_ofRoots hodd hrs, ← isProperPart_squares_iff]
  simp

/-- The shifts that separate two of the roots are among those that separate a proper part. -/
theorem Poly.le_two_mul_length_properShifts (hodd : m.value ≠ 2) (hrs : rs.Nodup)
    (htwo : 2 ≤ rs.length) : m.value - 1 ≤ 2 * (ofRoots rs).properShifts.length := by
  obtain ⟨r, s, rest, rfl⟩ : ∃ r s rest, rs = r :: s :: rest := by
    match rs, htwo with
    | r :: s :: rest, _ => exact ⟨r, s, rest, rfl⟩
  have hne : r.toZMod ≠ s.toZMod := by
    intro heq
    have hnot := (List.nodup_cons.mp hrs).1
    exact hnot (Residue.toZMod_injective heq ▸ List.mem_cons_self)
  have hcard := le_two_mul_card_parts hodd hne
  have hsubset : (Finset.univ.filter fun a => Shift.Parts r.toZMod s.toZMod a) ⊆
      ((ofRoots (r :: s :: rest)).properShifts.map Residue.toZMod).toFinset := by
    intro x hx
    obtain ⟨a, rfl⟩ := Residue.toZMod_surjective x
    rw [List.mem_toFinset, List.mem_map_of_injective Residue.toZMod_injective,
      mem_properShifts_ofRoots hodd hrs]
    exact Shift.separates_of_parts (by simp) (by simp) (Finset.mem_filter.mp hx).2
  have hle := (Finset.card_le_card hsubset).trans (List.toFinset_card_le _)
  rw [List.length_map] at hle
  omega

end Prime

/-- Over an odd prime modulus at least half of the shifts other than zero separate a proper part of
a product of distinct linear polynomials. Whichever attempt of a split draws such a shift returns
the part, and draws no further. -/
theorem half_le_length_properShifts (m : Modulus) (hm : m.value.Prime) (hodd : m.value ≠ 2)
    (rs : List (Residue m)) (hrs : rs.Nodup) (htwo : 2 ≤ rs.length) :
    let h := Poly.ofRoots rs
    h.properShifts.Nodup ∧
    (∀ a, a ∈ h.properShifts ↔ ∃ g, h.squareClass a = .ok g ∧ h.IsProperPart g) ∧
    (m.value - 1) / 2 ≤ h.properShifts.length ∧
    ∀ (σ : Type) [Source σ] (limit : ℤ) (left tried : ℕ) (s : Session σ),
      s.shift m ∈ h.properShifts →
        ∃ part, (Frobenius.splitFrom limit h (left + 1) tried : Search σ _).run.run s =
          (.ok part, s.advance m) ∧ h.squareClass (s.shift m) = .ok part.1 := by
  have : Fact m.value.Prime := ⟨hm⟩
  intro h
  refine ⟨h.nodup_properShifts, fun a => Poly.mem_properShifts, ?_, ?_⟩
  · have hle := Poly.le_two_mul_length_properShifts hodd hrs htwo
    exact Nat.div_le_of_le_mul hle
  · intro σ _ limit left tried s hs
    obtain ⟨g, hg, hpart⟩ := Poly.mem_properShifts.mp hs
    exact ⟨⟨g, hpart⟩, Frobenius.run_splitFrom_hit hg hpart, hg⟩

/-- Modulo five, just two of the five shifts separate one from three, so there is no better bound.
Zero is one of them. -/
theorem half_le_length_properShifts_five :
    let m : Modulus := ⟨5, by decide⟩
    let rs : List (Residue m) := [⟨1, by decide⟩, ⟨3, by decide⟩]
    let s : Session Tape := .fresh (Tape.ofList [0])
    Nat.Prime 5 ∧ m.value ≠ 2 ∧ rs.Nodup ∧ 2 ≤ rs.length ∧
      (Poly.ofRoots rs).properShifts = [0, 1] ∧
      (m.value - 1) / 2 ≤ (Poly.ofRoots rs).properShifts.length ∧
      ∃ part, (Frobenius.split 1 (Poly.ofRoots rs) : Search Tape _).run.run s =
        (.ok part, s.advance m) := by
  intro m rs s
  have hprime : Nat.Prime 5 := by norm_num
  have hodd : m.value ≠ 2 := by decide
  have hrs : rs.Nodup := by decide
  have hshifts : (Poly.ofRoots rs).properShifts = [0, 1] := by decide +kernel
  obtain ⟨-, -, hhalf, hsplit⟩ := half_le_length_properShifts m hprime hodd rs hrs le_rfl
  have hfirst : s.shift m ∈ (Poly.ofRoots rs).properShifts := by
    rw [hshifts]
    decide
  obtain ⟨part, hrun, -⟩ := hsplit Tape 1 0 0 s hfirst
  exact ⟨hprime, hodd, hrs, le_rfl, hshifts, hhalf, part, hrun⟩

end MultisetRecovery

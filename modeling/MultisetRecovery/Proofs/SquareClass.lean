import Mathlib.NumberTheory.LegendreSymbol.Basic
import MultisetRecovery.Proofs.Draws
import MultisetRecovery.Proofs.LinearProduct

/-!
# What a shift separates

Over an odd prime modulus, Euler's criterion tells the non-zero squares from zero and from the
other residues. So the class of a shift is the product of the linear polynomials of those roots that
the shift takes to non-zero squares, and the shift separates the roots if it takes some of them
there and some not. A split takes the class of the first shift drawn that separates, and fails if
none of those that it may draw does.
-/

open Polynomial

namespace MultisetRecovery

variable {m : Modulus}

namespace Residue

/-- A square other than zero. -/
def IsNonzeroSquare (a : Residue m) : Prop := a ≠ 0 ∧ ∃ b : Residue m, a = b * b

theorem exists_mul_self_iff {a : Residue m} :
    (∃ v < m.value, a = ofNat m v * ofNat m v) ↔ ∃ b : Residue m, a = b * b := by
  constructor
  · rintro ⟨v, -, hv⟩
    exact ⟨_, hv⟩
  · rintro ⟨b, hb⟩
    exact ⟨b.val, b.val_lt, by rw [ofNat_val, hb]⟩

instance (a : Residue m) : Decidable a.IsNonzeroSquare :=
  decidable_of_iff (a ≠ 0 ∧ ∃ v < m.value, a = ofNat m v * ofNat m v)
    (and_congr_right fun _ => exists_mul_self_iff)

theorem isNonzeroSquare_iff {a : Residue m} :
    a.IsNonzeroSquare ↔ a.toZMod ≠ 0 ∧ IsSquare a.toZMod := by
  rw [IsNonzeroSquare, Ne, Ne, toZMod_eq_zero_iff, and_congr_right_iff]
  intro _
  constructor
  · rintro ⟨b, rfl⟩
    exact ⟨b.toZMod, toZMod_mul b b⟩
  · rintro ⟨x, hx⟩
    obtain ⟨b, rfl⟩ := toZMod_surjective x
    refine ⟨b, toZMod_injective ?_⟩
    rw [hx, toZMod_mul]

/-- Euler's criterion. -/
theorem pow_eulerExponent_eq_one_iff [hprime : Fact m.value.Prime] (hodd : m.value ≠ 2)
    (a : Residue m) : a.toZMod ^ m.eulerExponent = 1 ↔ a.IsNonzeroSquare := by
  have hexponent : m.eulerExponent = m.value / 2 := by
    have hmod := hprime.out.eq_two_or_odd.resolve_left hodd
    unfold Modulus.eulerExponent
    omega
  rw [hexponent, isNonzeroSquare_iff]
  by_cases ha : a.toZMod = 0
  · have hpos : m.value / 2 ≠ 0 := by
      have htwo := m.two_le
      omega
    rw [ha, zero_pow hpos]
    simp
  · rw [← ZMod.euler_criterion m.value ha]
    exact (and_iff_right ha).symm

end Residue

namespace Shift

/-- The members of a list that a shift takes to non-zero squares. -/
def squares (a : Residue m) (rs : List (Residue m)) : List (Residue m) :=
  rs.filter fun r => (r + a).IsNonzeroSquare

/-- The members of a list that a shift takes elsewhere. -/
def others (a : Residue m) (rs : List (Residue m)) : List (Residue m) :=
  rs.filter fun r => ¬ (r + a).IsNonzeroSquare

/-- A shift separates residues if it takes some of them to non-zero squares, but not all. -/
def Separates (a : Residue m) (rs : List (Residue m)) : Prop :=
  (∃ r ∈ rs, (r + a).IsNonzeroSquare) ∧ ∃ r ∈ rs, ¬ (r + a).IsNonzeroSquare

instance (a : Residue m) (rs : List (Residue m)) : Decidable (Separates a rs) :=
  inferInstanceAs (Decidable (_ ∧ _))

theorem perm_others_append_squares (a : Residue m) (rs : List (Residue m)) :
    rs.Perm (others a rs ++ squares a rs) := by
  have hperm := List.filter_append_perm (fun r => decide (r + a).IsNonzeroSquare) rs
  refine (hperm.symm.trans List.perm_append_comm).trans ?_
  simp [others, squares]

theorem separates_iff {a : Residue m} {rs : List (Residue m)} :
    Separates a rs ↔ 0 < (squares a rs).length ∧ (squares a rs).length < rs.length := by
  have hlen := (perm_others_append_squares a rs).length_eq
  rw [List.length_append] at hlen
  have hothers : (squares a rs).length < rs.length ↔ 0 < (others a rs).length := by omega
  rw [hothers, List.length_pos_iff_exists_mem, List.length_pos_iff_exists_mem]
  simp [Separates, squares, others]

/-- If some shift of a list separates then there is a first one. -/
theorem exists_first {rs shifts : List (Residue m)}
    (h : ¬ ∀ a ∈ shifts, ¬ Separates a rs) :
    ∃ missed a rest, shifts = missed ++ a :: rest ∧ (∀ b ∈ missed, ¬ Separates b rs) ∧
      Separates a rs := by
  cases hfind : shifts.find? (Separates · rs) with
  | none => exact absurd (by simpa using hfind) h
  | some a =>
    obtain ⟨ha, missed, rest, rfl, hmissed⟩ := List.find?_eq_some_iff_append.mp hfind
    exact ⟨missed, a, rest, rfl, by simpa using hmissed, by simpa using ha⟩

end Shift

namespace Poly

theorem isProperPart_squares_iff {a : Residue m} {rs : List (Residue m)} :
    (ofRoots rs).IsProperPart (ofRoots (Shift.squares a rs)) ↔ Shift.Separates a rs := by
  rw [IsProperPart, degree_ofRoots, degree_ofRoots, Shift.separates_iff]
  norm_cast

theorem div_squares (a : Residue m) (rs : List (Residue m)) :
    (ofRoots rs).div (ofRoots (Shift.squares a rs)) = .ok (ofRoots (Shift.others a rs)) := by
  rw [div, divMod_ofRoots (Shift.perm_others_append_squares a rs)]
  rfl

section Prime

variable [Fact m.value.Prime] {rs : List (Residue m)}

theorem X_sub_C_dvd_pow_sub_one_iff (hodd : m.value ≠ 2) (r a : Residue m) :
    (Polynomial.X - C r.toZMod) ∣ (Polynomial.X + C a.toZMod) ^ m.eulerExponent - 1 ↔
      (r + a).IsNonzeroSquare := by
  rw [dvd_iff_isRoot, IsRoot.def, eval_sub, eval_pow, eval_add, eval_X, eval_C, eval_one,
    sub_eq_zero, ← Residue.toZMod_add, Residue.pow_eulerExponent_eq_one_iff hodd]

/-- The class of a shift is the product of the linear polynomials of the roots that the shift takes
to non-zero squares. -/
theorem squareClass_ofRoots (hodd : m.value ≠ 2) (hrs : rs.Nodup) (a : Residue m) :
    (ofRoots rs).squareClass a = .ok (ofRoots (Shift.squares a rs)) := by
  have hlinear := isLinearProduct_ofRoots hrs
  obtain ⟨g, hg, hmonic, hiff⟩ := exists_squareClass hlinear.monic.ne_zero a
  have hgh : g.toPolynomial ∣ (ofRoots rs).toPolynomial := ((hiff _).mp dvd_rfl).2
  have hpart := hlinear.of_dvd hmonic hgh
  have hsquares : (Shift.squares a rs).Nodup := hrs.filter _
  have hmap := Multiset.coe_nodup.mpr (hsquares.map Residue.toZMod_injective)
  rw [hg, hpart.eq_ofRoots]
  rw [Multiset.Nodup.ext hpart.nodup hmap]
  intro x
  obtain ⟨r, rfl⟩ := Residue.toZMod_surjective x
  -- A root of the class is a root of the whole at which the power of the shifted root is one.
  rw [mem_roots hmonic.ne_zero, ← dvd_iff_isRoot, hiff, X_sub_C_dvd_pow_sub_one_iff hodd,
    X_sub_C_dvd_ofRoots_iff, Multiset.mem_coe, List.mem_map_of_injective Residue.toZMod_injective,
    Shift.squares, List.mem_filter, decide_eq_true_iff]
  exact and_comm

end Prime

end Poly

/-! ## The shifts of a split -/

variable {σ : Type} [Source σ]

namespace Frobenius

variable [Fact m.value.Prime] {rs : List (Residue m)} {limit : ℤ}

/-- If no shift separates the roots then a split tries them all and fails. -/
theorem run_splitFrom_of_missed (hodd : m.value ≠ 2) (hrs : rs.Nodup) (left tried : ℕ)
    (s : Session σ)
    (hmissed : ∀ b ∈ (Instance.randomResidues m left s.sampler).1, ¬ Shift.Separates b rs) :
    ∃ t, (splitFrom limit (Poly.ofRoots rs) left tried : Search σ _).run.run s =
      (.error (.internal (.splitExhausted rs.length limit)), t) ∧
      t.sampler.draws = s.sampler.draws + left := by
  induction left generalizing tried s with
  | zero =>
    refine ⟨s, ?_, rfl⟩
    rw [splitFrom, Poly.degree_ofRoots]
    rfl
  | succ left ih =>
    rw [Session.randomResidues_succ, List.forall_mem_cons] at hmissed
    obtain ⟨hfirst, hrest⟩ := hmissed
    have hclass := Poly.squareClass_ofRoots hodd hrs (s.shift m)
    rw [run_splitFrom_miss hclass (Poly.isProperPart_squares_iff.not.mpr hfirst)]
    obtain ⟨t, hrun, hdraws⟩ := ih (tried + 1) (Session.noted (s.advance m) _) hrest
    refine ⟨t, hrun, ?_⟩
    rw [hdraws, Session.sampler_noted, Session.draws_advance]
    omega

/-- A split draws until a shift separates the roots, and returns the class of that shift. -/
theorem run_splitFrom_of_separates (hodd : m.value ≠ 2) (hrs : rs.Nodup) {missed : List (Residue m)}
    {a : Residue m} {rest : List (Residue m)} (left tried : ℕ) (s : Session σ)
    (hdrawn : (Instance.randomResidues m left s.sampler).1 = missed ++ a :: rest)
    (hmissed : ∀ b ∈ missed, ¬ Shift.Separates b rs) (ha : Shift.Separates a rs) :
    ∃ part t, (splitFrom limit (Poly.ofRoots rs) left tried : Search σ _).run.run s =
      (.ok part, t) ∧ part.1 = Poly.ofRoots (Shift.squares a rs) ∧
      t.sampler.draws = s.sampler.draws + missed.length + 1 := by
  induction missed generalizing left tried s with
  | nil =>
    cases left with
    | zero => cases hdrawn
    | succ left =>
      rw [Session.randomResidues_succ] at hdrawn
      obtain ⟨rfl, -⟩ := List.cons.inj hdrawn
      have hclass := Poly.squareClass_ofRoots hodd hrs (s.shift m)
      rw [run_splitFrom_hit hclass (Poly.isProperPart_squares_iff.mpr ha)]
      exact ⟨_, _, rfl, rfl, rfl⟩
  | cons b missed ih =>
    cases left with
    | zero => cases hdrawn
    | succ left =>
      rw [Session.randomResidues_succ] at hdrawn
      obtain ⟨rfl, htail⟩ := List.cons.inj hdrawn
      obtain ⟨hfirst, hmissed⟩ := List.forall_mem_cons.mp hmissed
      have hclass := Poly.squareClass_ofRoots hodd hrs (s.shift m)
      rw [run_splitFrom_miss hclass (Poly.isProperPart_squares_iff.not.mpr hfirst)]
      obtain ⟨part, t, hrun, hpart, hdraws⟩ :=
        ih left (tried + 1) (Session.noted (s.advance m) _) htail hmissed
      refine ⟨part, t, hrun, hpart, ?_⟩
      rw [hdraws, Session.sampler_noted, Session.draws_advance, List.length_cons]
      omega

end Frobenius

/-- Over an odd prime modulus the class of a shift is known by squares. A split returns the class of
the first shift that separates the roots, and draws no further; the quotient is the product for the
other roots. It fails exactly if none of the shifts that it may draw separates them. -/
theorem split_separates (m : Modulus) (hm : m.value.Prime) (hodd : m.value ≠ 2)
    (rs : List (Residue m)) (hrs : rs.Nodup) :
    (∀ a, (Poly.ofRoots rs).squareClass a = .ok (Poly.ofRoots (Shift.squares a rs))) ∧
    ∀ (σ : Type) [Source σ] (limit : ℤ) (s : Session σ),
      let drawn := (Instance.randomResidues m limit.toNat s.sampler).1
      let run := (Frobenius.split limit (Poly.ofRoots rs) : Search σ _).run.run s
      (∀ missed a rest, drawn = missed ++ a :: rest →
        (∀ b ∈ missed, ¬ Shift.Separates b rs) → Shift.Separates a rs →
          ∃ part, run.1 = .ok part ∧ part.1 = Poly.ofRoots (Shift.squares a rs) ∧
            (Poly.ofRoots rs).div part.1 = .ok (Poly.ofRoots (Shift.others a rs)) ∧
            run.2.sampler.draws = s.sampler.draws + missed.length + 1) ∧
      ((∃ e, run.1 = .error (.internal e)) ↔ ∀ a ∈ drawn, ¬ Shift.Separates a rs) ∧
      ∀ e, run.1 = .error e → e = .internal (.splitExhausted rs.length limit) ∧
        run.2.sampler.draws = s.sampler.draws + limit.toNat := by
  have : Fact m.value.Prime := ⟨hm⟩
  refine ⟨Poly.squareClass_ofRoots hodd hrs, fun σ _ limit s => ?_⟩
  intro drawn run
  have hfound : ∀ missed a rest, drawn = missed ++ a :: rest →
      (∀ b ∈ missed, ¬ Shift.Separates b rs) → Shift.Separates a rs →
        ∃ part t, run = (.ok part, t) ∧ part.1 = Poly.ofRoots (Shift.squares a rs) ∧
          t.sampler.draws = s.sampler.draws + missed.length + 1 :=
    fun missed a rest hdrawn hmissed ha =>
      Frobenius.run_splitFrom_of_separates hodd hrs limit.toNat 0 s hdrawn hmissed ha
  have hfailed : (∀ a ∈ drawn, ¬ Shift.Separates a rs) →
      ∃ t, run = (.error (.internal (.splitExhausted rs.length limit)), t) ∧
        t.sampler.draws = s.sampler.draws + limit.toNat :=
    Frobenius.run_splitFrom_of_missed hodd hrs limit.toNat 0 s
  refine ⟨fun missed a rest hdrawn hmissed ha => ?_, ⟨?_, fun hmissed => ?_⟩, fun e he => ?_⟩
  · obtain ⟨part, t, hrun, hpart, hdraws⟩ := hfound missed a rest hdrawn hmissed ha
    rw [hrun]
    exact ⟨part, rfl, hpart, by rw [hpart, Poly.div_squares], hdraws⟩
  · rintro ⟨e, he⟩
    by_contra hsome
    obtain ⟨missed, a, rest, hdrawn, hmissed, ha⟩ := Shift.exists_first hsome
    obtain ⟨part, t, hrun, -⟩ := hfound missed a rest hdrawn hmissed ha
    rw [hrun] at he
    cases he
  · obtain ⟨t, hrun, -⟩ := hfailed hmissed
    exact ⟨_, by rw [hrun]⟩
  · by_cases hmissed : ∀ a ∈ drawn, ¬ Shift.Separates a rs
    · obtain ⟨t, hrun, hdraws⟩ := hfailed hmissed
      rw [hrun] at he ⊢
      cases he
      exact ⟨rfl, hdraws⟩
    · obtain ⟨missed, a, rest, hdrawn, hmissed, ha⟩ := Shift.exists_first hmissed
      obtain ⟨part, t, hrun, -⟩ := hfound missed a rest hdrawn hmissed ha
      rw [hrun] at he
      cases he

/-- Modulo seven, the roots one, two and four are all squares, so the shift zero leaves them
together. The shift three takes them to four, five and zero. -/
theorem split_separates_seven :
    let m : Modulus := ⟨7, by decide⟩
    let rs : List (Residue m) := [⟨1, by decide⟩, ⟨2, by decide⟩, ⟨4, by decide⟩]
    let s : Session Tape := .fresh (Tape.ofList [0, 3])
    let run := (Frobenius.split 2 (Poly.ofRoots rs) : Search Tape _).run.run s
    Nat.Prime 7 ∧ m.value ≠ 2 ∧ rs.Nodup ∧ ¬ Shift.Separates 0 rs ∧
      Shift.Separates ⟨3, by decide⟩ rs ∧
      ∃ part, run.1 = .ok part ∧ part.1 = Poly.ofRoots [⟨1, by decide⟩] ∧
        (Poly.ofRoots rs).div part.1 = .ok (Poly.ofRoots [⟨2, by decide⟩, ⟨4, by decide⟩]) ∧
        run.2.sampler.draws = 2 := by
  intro m rs s run
  have hprime : Nat.Prime 7 := by norm_num
  have hodd : m.value ≠ 2 := by decide
  have hrs : rs.Nodup := by decide
  have hmissed : ¬ Shift.Separates 0 rs := by decide
  have hseparates : Shift.Separates ⟨3, by decide⟩ rs := by decide
  obtain ⟨-, hsplit⟩ := split_separates m hprime hodd rs hrs
  obtain ⟨hfirst, -⟩ := hsplit Tape 2 s
  obtain ⟨part, hok, hpart, hdiv, hdraws⟩ := hfirst [0] ⟨3, by decide⟩ [] (by decide)
    (by simpa using hmissed) hseparates
  have hsquares : Shift.squares ⟨3, by decide⟩ rs = [⟨1, by decide⟩] := by decide
  have hothers : Shift.others ⟨3, by decide⟩ rs = [⟨2, by decide⟩, ⟨4, by decide⟩] := by decide
  rw [hsquares] at hpart
  rw [hothers] at hdiv
  -- The run is put in for its name, so that it is compared and not evaluated.
  subst run
  exact ⟨hprime, hodd, hrs, hmissed, hseparates, part, hok, hpart, hdiv, hdraws⟩

end MultisetRecovery

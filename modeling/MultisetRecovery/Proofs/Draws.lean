import MultisetRecovery.Instance.Basic
import MultisetRecovery.Proofs.Computation
import MultisetRecovery.Proofs.Division
import MultisetRecovery.Random.Tape
import MultisetRecovery.RootSearch.Frobenius

/-!
# How often a search for roots draws

Over any modulus, a part that a shift separates is monic, so its degree and that of the quotient add
up to the degree of the whole, although over a composite modulus the part need not divide. The
factors that are left to split therefore have degrees that add up to that of the polynomial which
the search began with, and each of them has degree one at least: a search that returns has split
once for each root but the first, and one that fails has split less often. With the limit on the
shifts of one split this bounds the draws of the search, however it ends.
-/

namespace MultisetRecovery

variable {m : Modulus} {σ : Type} [Source σ]

/-! ## One shift -/

/-- The shift that is drawn next. -/
def Session.shift (m : Modulus) (s : Session σ) : Residue m :=
  Residue.ofNat m (s.sampler.below m.value).1

/-- The session after the next shift is drawn. -/
def Session.advance (m : Modulus) (s : Session σ) : Session σ :=
  { s with sampler := (s.sampler.below m.value).2 }

/-- The session with one more event in its journal. -/
def Session.noted (s : Session σ) (e : Event) : Session σ := { s with journal := e :: s.journal }

omit [Source σ] in
@[simp]
theorem Session.sampler_noted (s : Session σ) (e : Event) : (s.noted e).sampler = s.sampler := rfl

@[simp]
theorem Session.draws_advance (m : Modulus) (s : Session σ) :
    (s.advance m).sampler.draws = s.sampler.draws + 1 := rfl

/-- The next shifts are the next random residues. -/
theorem Session.randomResidues_succ (m : Modulus) (n : ℕ) (s : Session σ) :
    (Instance.randomResidues m (n + 1) s.sampler).1 =
      s.shift m :: (Instance.randomResidues m n (s.advance m).sampler).1 := rfl

theorem Instance.length_randomResidues (m : Modulus) (n : ℕ) (s : Sampler σ) :
    (randomResidues m n s).1.length = n := by
  induction n generalizing s with
  | zero => rfl
  | succ n ih =>
    rw [randomResidues, List.length_cons, ih]

theorem Search.run_residue_bind {α : Type} (f : Residue m → Search σ α) (s : Session σ) :
    (residue m >>= f).run.run s = (f (s.shift m)).run.run (s.advance m) := by
  rw [run_bind]
  rfl

omit [Source σ] in
theorem Search.run_note_bind {α : Type} (e : Event) (f : Unit → Search σ α) (s : Session σ) :
    (note e >>= f).run.run s = (f ()).run.run (s.noted e) := by
  rw [run_bind]
  rfl

namespace Frobenius

variable {limit : ℤ} {h g : Poly m} {left tried : ℕ} {s : Session σ}

/-- A shift that separates a proper part ends the split. -/
theorem run_splitFrom_hit (hg : h.squareClass (s.shift m) = .ok g) (hpart : h.IsProperPart g) :
    (splitFrom limit h (left + 1) tried : Search σ _).run.run s =
      (.ok ⟨g, hpart⟩, s.advance m) := by
  rw [splitFrom, Search.run_residue_bind, hg, Search.ofArithmetic, pure_bind, dif_pos hpart]
  rfl

/-- A shift that separates none is noted, and the next one is tried. -/
theorem run_splitFrom_miss (hg : h.squareClass (s.shift m) = .ok g) (hpart : ¬ h.IsProperPart g) :
    (splitFrom limit h (left + 1) tried : Search σ _).run.run s =
      (splitFrom limit h left (tried + 1) : Search σ _).run.run
        ((s.advance m).noted (.splitMissed (tried + 1) (s.shift m).val)) := by
  rw [splitFrom, Search.run_residue_bind, hg, Search.ofArithmetic, pure_bind, dif_neg hpart,
    Search.run_note_bind]

/-- Over a composite modulus a shift can be the last for want of an inverse. -/
theorem run_splitFrom_fault {e : ArithmeticError} (he : h.squareClass (s.shift m) = .error e) :
    (splitFrom limit h (left + 1) tried : Search σ _).run.run s =
      (.error (.arithmetic e), s.advance m) := by
  rw [splitFrom, Search.run_residue_bind, he]
  rfl

/-! ## One split -/

theorem monic_of_squareClass {a : Residue m} (hg : h.squareClass a = .ok g)
    (hpart : h.IsProperPart g) : g.toPolynomial.Monic := by
  obtain ⟨r, -, hgcd⟩ := Except.bind_eq_ok_iff.mp hg
  apply Poly.gcd_monic hgcd
  rw [Ne, ← Poly.size_eq_zero_iff]
  have hpos := hpart.1
  unfold Poly.degree at hpos
  omega

/-- A split draws as often as it may at most. If it succeeds it has drawn, and the part is monic. -/
theorem splitFrom_spec (limit : ℤ) (h : Poly m) (left tried : ℕ) (s : Session σ) :
    match (splitFrom limit h left tried : Search σ _).run.run s with
    | (.ok part, t) => part.1.toPolynomial.Monic ∧ s.sampler.draws + 1 ≤ t.sampler.draws ∧
        t.sampler.draws ≤ s.sampler.draws + left
    | (.error _, t) => t.sampler.draws ≤ s.sampler.draws + left := by
  induction left generalizing tried s with
  | zero => exact le_rfl
  | succ left ih =>
    cases hg : h.squareClass (s.shift m) with
    | error e =>
      rw [run_splitFrom_fault hg]
      simp only [Session.draws_advance]
      omega
    | ok g =>
      by_cases hpart : h.IsProperPart g
      · rw [run_splitFrom_hit hg hpart]
        refine ⟨monic_of_squareClass hg hpart, le_rfl, ?_⟩
        rw [Session.draws_advance]
        omega
      · -- The draws of the shifts that are left come on top of this one.
        rw [run_splitFrom_miss hg hpart]
        have hrest := ih (tried + 1)
          ((s.advance m).noted (.splitMissed (tried + 1) (s.shift m).val))
        revert hrest
        rcases (splitFrom limit h left (tried + 1) : Search σ _).run.run _ with ⟨e | part, t⟩
        · simp only [Session.sampler_noted, Session.draws_advance]
          omega
        · simp only [Session.sampler_noted, Session.draws_advance]
          rintro ⟨hmonic, hlt, hle⟩
          exact ⟨hmonic, by omega, by omega⟩

theorem of_split_ok {part : { g : Poly m // h.IsProperPart g }} {t : Session σ}
    (hsplit : (split limit h : Search σ _).run.run s = (.ok part, t)) :
    part.1.toPolynomial.Monic ∧ s.sampler.draws + 1 ≤ t.sampler.draws ∧
      t.sampler.draws ≤ s.sampler.draws + limit.toNat := by
  have hspec := splitFrom_spec limit h limit.toNat 0 s
  rwa [← split, hsplit] at hspec

theorem of_split_error {e : Failure} {t : Session σ}
    (hsplit : (split limit h : Search σ _).run.run s = (.error e, t)) :
    t.sampler.draws ≤ s.sampler.draws + limit.toNat := by
  have hspec := splitFrom_spec limit h limit.toNat 0 s
  rwa [← split, hsplit] at hspec

/-! ## The course of a search -/

/-- The course of a search for the roots of a product: the session before it, how many splits
succeed, how it ends, and the session after it. -/
inductive Course (limit : ℤ) :
    Poly m → Session σ → ℕ → Except Failure (List (Residue m)) → Session σ → Prop where
  /-- The root of a linear polynomial is read off. -/
  | linear {f : Poly m} {s : Session σ} (hone : f.degree = 1) :
    Course limit f s 0 (.ok [-f.coeff 0]) s
  /-- The polynomial is not split. -/
  | unsplit {f : Poly m} {s t : Session σ} {e : Failure} (hone : f.degree ≠ 1)
    (hsplit : (split limit f : Search σ _).run.run s = (.error e, t)) :
    Course limit f s 0 (.error e) t
  /-- It is split, and the search for the roots of the quotient fails. -/
  | stopped {f q r : Poly m} {s t u : Session σ} {part : { g : Poly m // f.IsProperPart g }}
    {k : ℕ} {e : Failure} (hone : f.degree ≠ 1)
    (hsplit : (split limit f : Search σ _).run.run s = (.ok part, t))
    (hdiv : f.divMod part.1 = .ok (q, r)) (hothers : Course limit q t k (.error e) u) :
    Course limit f s (k + 1) (.error e) u
  /-- It is split, and after the roots of the quotient those of the part are searched for. -/
  | joined {f q r : Poly m} {s t u v : Session σ} {part : { g : Poly m // f.IsProperPart g }}
    {k l : ℕ} {others : List (Residue m)} {result : Except Failure (List (Residue m))}
    (hone : f.degree ≠ 1)
    (hsplit : (split limit f : Search σ _).run.run s = (.ok part, t))
    (hdiv : f.divMod part.1 = .ok (q, r)) (hothers : Course limit q t k (.ok others) u)
    (hthese : Course limit part.1 u l result v) :
    Course limit f s (k + l + 1) (result.map (others ++ ·)) v

theorem run_linearRoots_of_split {f q r : Poly m} {s t : Session σ}
    {part : { g : Poly m // f.IsProperPart g }} (hone : f.degree ≠ 1)
    (hsplit : (split limit f : Search σ _).run.run s = (.ok part, t))
    (hdiv : f.divMod part.1 = .ok (q, r)) :
    (linearRoots limit f : Search σ _).run.run s =
      (linearRoots limit q >>= fun others => linearRoots limit part.1 >>= fun these =>
        pure (others ++ these) : Search σ _).run.run t := by
  rw [linearRoots, if_neg hone, Search.run_bind, hsplit]
  simp only
  split
  · rename_i e he
    cases he.symm.trans hdiv
  · rename_i qr hok
    cases hok.symm.trans hdiv
    rfl

/-- Over any modulus, a search for roots takes some course. -/
theorem exists_course (limit : ℤ) (f : Poly m) (s : Session σ) :
    ∃ splits, Course limit f s splits ((linearRoots limit f : Search σ _).run.run s).1
      ((linearRoots limit f : Search σ _).run.run s).2 := by
  induction hn : f.size using Nat.strong_induction_on generalizing f s with
  | _ n ih =>
    subst hn
    by_cases hone : f.degree = 1
    · refine ⟨0, ?_⟩
      rw [linearRoots, if_pos hone]
      exact .linear hone
    rcases hsplit : (split limit f : Search σ _).run.run s with ⟨e | part, t⟩
    · refine ⟨0, ?_⟩
      rw [linearRoots, if_neg hone, Search.run_bind, hsplit]
      exact .unsplit hone hsplit
    -- The part is monic, so the division by it has a value over any modulus.
    obtain ⟨hmonic, -⟩ := of_split_ok hsplit
    obtain ⟨q, r, hdiv⟩ := Poly.exists_divMod (Poly.isUnit_lead_of_monic hmonic) f
    have hq := Poly.size_quotient_lt part.2 hdiv
    have hpart := Poly.size_lt_of_isProperPart part.2
    obtain ⟨k, hothers⟩ := ih q.size hq q t rfl
    rw [run_linearRoots_of_split hone hsplit hdiv, Search.run_bind]
    rcases hrun : (linearRoots limit q : Search σ _).run.run t with ⟨e | others, u⟩
    · rw [hrun] at hothers
      exact ⟨k + 1, .stopped hone hsplit hdiv hothers⟩
    · rw [hrun] at hothers
      obtain ⟨l, hthese⟩ := ih part.1.size hpart part.1 u rfl
      refine ⟨k + l + 1, ?_⟩
      have hjoined := Course.joined hone hsplit hdiv hothers hthese
      simp only
      rw [Search.run_bind]
      rcases hrun' : (linearRoots limit part.1 : Search σ _).run.run u with ⟨e | these, v⟩
      · rw [hrun'] at hjoined
        exact hjoined
      · rw [hrun'] at hjoined
        exact hjoined

/-! ## Degrees and draws -/

/-- The degrees of part and quotient are positive and add up. -/
theorem degrees_of_split {f q r : Poly m} {s t : Session σ}
    {part : { g : Poly m // f.IsProperPart g }}
    (hsplit : (split limit f : Search σ _).run.run s = (.ok part, t))
    (hdiv : f.divMod part.1 = .ok (q, r)) :
    1 ≤ q.degree ∧ 1 ≤ part.1.degree ∧ f.degree = q.degree + part.1.degree := by
  obtain ⟨hmonic, -⟩ := of_split_ok hsplit
  obtain ⟨hpos, hlt⟩ := part.2
  have hsize : part.1.size ≤ f.size := (Poly.size_lt_of_isProperPart part.2).le
  have hsum := Poly.degree_eq_add_of_divMod (Poly.isUnit_lead_of_monic hmonic) hsize hdiv
  exact ⟨by omega, by omega, hsum⟩

/-- The splits that succeed number one less than the roots that are found. After a failure there
was one more split to come. -/
theorem Course.degree {f : Poly m} {s t : Session σ} {splits : ℕ}
    {result : Except Failure (List (Residue m))} :
    Course limit f s splits result t → 1 ≤ f.degree →
      match result with
      | .ok rs => (rs.length : ℤ) = f.degree ∧ f.degree = splits + 1
      | .error _ => (splits : ℤ) + 2 ≤ f.degree := by
  intro h hf
  induction h with
  | linear hone => simp [hone]
  | unsplit hone hsplit =>
    show ((0 : ℕ) : ℤ) + 2 ≤ _
    omega
  | @stopped f q r s t u part k e hone hsplit hdiv hothers ih =>
    obtain ⟨hq, hpart, hsum⟩ := degrees_of_split hsplit hdiv
    have hk := ih hq
    simp only at hk ⊢
    push_cast
    omega
  | @joined f q r s t u v part k l others result hone hsplit hdiv hothers hthese ih ih' =>
    obtain ⟨hq, hpart, hsum⟩ := degrees_of_split hsplit hdiv
    obtain ⟨hlen, hk⟩ := ih hq
    have hl := ih' hpart
    cases result with
    | error e =>
      simp only [Except.map] at hl ⊢
      push_cast
      omega
    | ok these =>
      obtain ⟨hlen', hl⟩ := hl
      simp only [Except.map, List.length_append]
      push_cast
      omega

/-- Each split that succeeds draws once at least, and none draws more often than it may. -/
theorem Course.draws {f : Poly m} {s t : Session σ} {splits : ℕ}
    {result : Except Failure (List (Residue m))} :
    Course limit f s splits result t →
      match result with
      | .ok _ => s.sampler.draws + splits ≤ t.sampler.draws ∧
          t.sampler.draws ≤ s.sampler.draws + splits * limit.toNat
      | .error _ => t.sampler.draws ≤ s.sampler.draws + (splits + 1) * limit.toNat := by
  intro h
  induction h with
  | linear hone => simp
  | @unsplit f s t e hone hsplit =>
    have hle := of_split_error hsplit
    simpa using hle
  | @stopped f q r s t u part k e hone hsplit hdiv hothers ih =>
    obtain ⟨-, -, hle⟩ := of_split_ok hsplit
    have hmul : (k + 1 + 1) * limit.toNat = (k + 1) * limit.toNat + limit.toNat := by ring
    simp only at ih ⊢
    omega
  | @joined f q r s t u v part k l others result hone hsplit hdiv hothers hthese ih ih' =>
    obtain ⟨-, hlt, hle⟩ := of_split_ok hsplit
    obtain ⟨hothers_lt, hothers_le⟩ := ih
    cases result with
    | error e =>
      have hmul : (k + l + 1 + 1) * limit.toNat =
          k * limit.toNat + (l + 1) * limit.toNat + limit.toNat := by ring
      simp only [Except.map] at ih' ⊢
      omega
    | ok these =>
      have hmul : (k + l + 1) * limit.toNat =
          k * limit.toNat + l * limit.toNat + limit.toNat := by ring
      simp only [Except.map] at ih' ⊢
      omega

theorem Course.of_ok {f : Poly m} {s t : Session σ} {splits : ℕ} {rs : List (Residue m)}
    (h : Course limit f s splits (.ok rs) t) (hlimit : 0 ≤ limit) (hf : 1 ≤ f.degree) :
    (rs.length : ℤ) = f.degree ∧ (splits : ℤ) = f.degree - 1 ∧
      s.sampler.draws + (f.degree - 1) ≤ t.sampler.draws ∧
      t.sampler.draws ≤ s.sampler.draws + (f.degree - 1) * limit := by
  obtain ⟨hlen, hdegree⟩ := h.degree hf
  obtain ⟨hlower, hupper⟩ := h.draws
  have hsplits : f.degree - 1 = splits := by omega
  have hnat : (limit.toNat : ℤ) = limit := Int.toNat_of_nonneg hlimit
  rw [hsplits]
  refine ⟨hlen, rfl, by omega, ?_⟩
  rw [← hnat]
  exact_mod_cast hupper

theorem Course.of_error {f : Poly m} {s t : Session σ} {splits : ℕ} {e : Failure}
    (h : Course limit f s splits (.error e) t) (hlimit : 0 ≤ limit) (hf : 1 ≤ f.degree) :
    (splits : ℤ) < f.degree - 1 ∧
      t.sampler.draws ≤ s.sampler.draws + (f.degree - 1) * limit := by
  have hdegree := h.degree hf
  have hdraws := h.draws
  have hnat : (limit.toNat : ℤ) = limit := Int.toNat_of_nonneg hlimit
  simp only at hdegree hdraws
  have hupper : (t.sampler.draws : ℤ) ≤ s.sampler.draws + (splits + 1) * limit := by
    rw [← hnat]
    exact_mod_cast hdraws
  have hmono : ((splits : ℤ) + 1) * limit ≤ (f.degree - 1) * limit :=
    mul_le_mul_of_nonneg_right (by omega) hlimit
  exact ⟨by omega, by omega⟩

theorem run_distinctRoots_of_error {f : Poly m} (hf : 1 ≤ f.degree) {e : ArithmeticError}
    (he : f.monic >>= Poly.linearPart = .error e) :
    (distinctRoots limit f : Search σ _).run.run s = (.error (.arithmetic e), s) := by
  rw [distinctRoots, if_neg (by omega), he]
  rfl

theorem run_distinctRoots_of_linearPart {f : Poly m} (hf : 1 ≤ f.degree)
    (hh : f.monic >>= Poly.linearPart = .ok h) :
    (distinctRoots limit f : Search σ _).run.run s =
      (if h.degree < 1 then pure []
        else if m.value = 2 then pure ([0, 1].filter (h.eval · = 0))
        else linearRoots limit h : Search σ _).run.run
          (s.noted (.linearPartKnown h.degree f.degree)) := by
  rw [distinctRoots, if_neg (by omega), hh, Search.ofArithmetic, pure_bind, Search.run_note_bind]

/-- Whatever the modulus and the numbers drawn, a search for roots ends after so many draws. Nothing
is drawn for the linear part, nor where that is not known, is constant or belongs to the modulus
two. Otherwise a search that returns has as many roots as the degree of the linear part says and has
split once for each of them but one. -/
theorem distinctRoots_draws (m : Modulus) (f : Poly m) (hf : 1 ≤ f.degree) (attempts : ℤ)
    (hattempts : 1 ≤ attempts) (σ : Type) [Source σ] (s : Session σ) :
    let run := (distinctRoots attempts f : Search σ _).run.run s
    (∀ e, f.monic >>= Poly.linearPart = .error e → run = (.error (.arithmetic e), s)) ∧
    ∀ h, f.monic >>= Poly.linearPart = .ok h →
      let noted := s.noted (.linearPartKnown h.degree f.degree)
      (m.value = 2 ∨ h.degree < 1 → ∃ rs, run = (.ok rs, noted)) ∧
      (m.value ≠ 2 → 1 ≤ h.degree →
        ∃ splits, Course attempts h noted splits run.1 run.2 ∧
          (∀ rs, run.1 = .ok rs → (rs.length : ℤ) = h.degree ∧ (splits : ℤ) = h.degree - 1 ∧
            s.sampler.draws + (h.degree - 1) ≤ run.2.sampler.draws ∧
            run.2.sampler.draws ≤ s.sampler.draws + (h.degree - 1) * attempts) ∧
          ∀ e, run.1 = .error e → (splits : ℤ) < h.degree - 1 ∧
            run.2.sampler.draws ≤ s.sampler.draws + (h.degree - 1) * attempts) := by
  intro run
  refine ⟨fun e he => run_distinctRoots_of_error hf he, fun h hh => ?_⟩
  intro noted
  have hrun : run = _ := run_distinctRoots_of_linearPart hf hh
  refine ⟨fun hnone => ?_, fun htwo hdegree => ?_⟩
  · by_cases hdegree : h.degree < 1
    · rw [if_pos hdegree] at hrun
      exact ⟨_, hrun⟩
    · rw [if_neg hdegree, if_pos (hnone.resolve_right hdegree)] at hrun
      exact ⟨_, hrun⟩
  · rw [if_neg (by omega), if_neg htwo] at hrun
    obtain ⟨splits, hcourse⟩ := exists_course attempts h noted
    rw [← hrun] at hcourse
    refine ⟨splits, hcourse, fun rs hrs => ?_, fun e he => ?_⟩
    · rw [hrs] at hcourse
      exact hcourse.of_ok (by omega) hdegree
    · rw [he] at hcourse
      exact hcourse.of_error (by omega) hdegree

/-- Modulo fifteen, the linear part of `(x - 11) * (x - 13) * (x - 14)` is `x ^ 2 - 1`. The second
shift splits it into `x - 4` and `x - 11`; its roots `1` and `14` are not found. -/
theorem distinctRoots_draws_fifteen :
    let m : Modulus := ⟨15, by decide⟩
    let f : Poly m := Poly.ofInts m [8, 14, 7, 1]
    let h : Poly m := Poly.ofInts m [-1, 0, 1]
    let s : Session Tape := .fresh (Tape.ofList [4, 5, 6])
    let run := (distinctRoots 4 f : Search Tape _).run.run s
    1 ≤ f.degree ∧ f.monic >>= Poly.linearPart = .ok h ∧
      run.1 = .ok [⟨4, by decide⟩, ⟨11, by decide⟩] ∧
      ∃ splits, Course 4 h (s.noted (.linearPartKnown 2 3)) splits run.1 run.2 ∧ splits = 1 ∧
        1 ≤ run.2.sampler.draws ∧ run.2.sampler.draws ≤ 4 := by
  intro m f h s run
  have hf : 1 ≤ f.degree := by decide
  have hh : f.monic >>= Poly.linearPart = .ok h := by decide +kernel
  have hrun : run.1 = .ok [⟨4, by decide⟩, ⟨11, by decide⟩] := by decide +kernel
  obtain ⟨-, hknown⟩ := distinctRoots_draws m f hf 4 (by decide) Tape s
  obtain ⟨-, hsplit⟩ := hknown h hh
  obtain ⟨splits, hcourse, hok, -⟩ := hsplit (by decide) (by decide)
  obtain ⟨-, hsplits, hlower, hupper⟩ := hok _ hrun
  have hdegree : h.degree = 2 := by decide
  rw [hdegree] at hsplits hlower hupper
  have hlower' : (0 : ℤ) + (2 - 1) ≤ run.2.sampler.draws := hlower
  have hupper' : run.2.sampler.draws ≤ (0 : ℤ) + (2 - 1) * 4 := hupper
  exact ⟨hf, hh, hrun, splits, hcourse, by omega, by omega, by omega⟩

end Frobenius

end MultisetRecovery

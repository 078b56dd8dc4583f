import MultisetRecovery.Proofs.Draws
import MultisetRecovery.Proofs.Frobenius
import MultisetRecovery.Proofs.Solution

/-!
# The journal knows when the shifts are used up

Each shift that leaves the roots of a factor together is noted with its number, and no other is: the
notes of a split are the random residues that it draws, less the one at which it ends, and the class
of each of them is no proper part (`Frobenius.splitFrom_draws`). If all that may be tried for one
split miss, the journal holds a run of misses from the first to the last, and the search fails for
that reason. No other search leaves such a run behind. This holds over any modulus, and for both
ways of finding roots.
-/

namespace MultisetRecovery

variable {m : Modulus} {σ α β : Type}

/-- A shift misses a polynomial if its class is no proper part. -/
def Shift.Misses (a : Residue m) (h : Poly m) : Prop :=
  ∃ g, h.squareClass a = .ok g ∧ ¬ h.IsProperPart g

namespace Frobenius

/-! ## Misses -/

/-- The misses of one split after so many shifts. -/
def misses (tried : ℕ) : List ℕ → List Event
  | [] => []
  | shift :: shifts => .splitMissed (tried + 1) shift :: misses (tried + 1) shifts

/-- All shifts that may be tried for one split have missed. That a split notes no shift but those
that do is said by `splitFrom_draws`. -/
def UsedUp (attempts : ℕ) (journal : List Event) : Prop :=
  ∃ shifts : List ℕ, shifts.length = attempts ∧ misses 0 shifts <:+: journal

theorem eq_of_mem_misses {tried : ℕ} {shifts : List ℕ} {e : Event} (h : e ∈ misses tried shifts) :
    ∃ number shift, e = .splitMissed number shift ∧ tried < number ∧
      number ≤ tried + shifts.length := by
  induction shifts generalizing tried with
  | nil => cases h
  | cons shift shifts ih =>
    rw [List.length_cons]
    rcases List.mem_cons.mp h with rfl | hmem
    · exact ⟨_, _, rfl, by omega, by omega⟩
    · obtain ⟨number, shift', rfl, hlt, hle⟩ := ih hmem
      exact ⟨_, _, rfl, by omega, by omega⟩

theorem exists_last_mem_misses (tried : ℕ) {shifts : List ℕ} (h : 0 < shifts.length) :
    ∃ shift, .splitMissed (tried + shifts.length) shift ∈ misses tried shifts := by
  induction shifts generalizing tried with
  | nil => simp at h
  | cons shift shifts ih =>
    rw [List.length_cons]
    rcases Nat.eq_zero_or_pos shifts.length with hzero | hpos
    · rw [hzero]
      exact ⟨shift, List.mem_cons_self⟩
    · obtain ⟨last, hmem⟩ := ih (tried + 1) hpos
      refine ⟨last, List.mem_cons_of_mem _ ?_⟩
      rwa [Nat.add_comm shifts.length, ← Nat.add_assoc]

/-- The last shift of a split is the one whose number is the limit. -/
theorem UsedUp.exists_mem {attempts : ℕ} {journal : List Event} (h : UsedUp attempts journal)
    (hpos : 0 < attempts) : ∃ shift, .splitMissed attempts shift ∈ journal := by
  obtain ⟨shifts, rfl, hinfix⟩ := h
  obtain ⟨shift, hmem⟩ := exists_last_mem_misses 0 hpos
  rw [Nat.zero_add] at hmem
  exact ⟨shift, hinfix.subset hmem⟩

/-! ## Searches -/

/-- How the events of a search for roots, latest first, go with its result: they are about roots,
and they hold a full run of misses exactly if the search has failed for want of shifts. -/
structure Accounts (limit : ℤ) (r : Except Failure α) (es : List Event) : Prop where
  /-- The events are about roots. -/
  topic : ∀ e ∈ es, e.topic = .roots
  /-- Where shifts are wanting, all have been tried. -/
  usedUp : ∀ e, r = .error e → Exhausted limit e → UsedUp limit.toNat es.reverse
  /-- After the last shift nothing else is tried. -/
  exhausted : ∀ shift, .splitMissed limit.toNat shift ∈ es → ∃ e, r = .error e ∧ Exhausted limit e

namespace Accounts

variable {limit : ℤ}

theorem of_ok {a : α} {es : List Event} (htopic : ∀ e ∈ es, e.topic = .roots)
    (hmiss : ∀ number shift, .splitMissed number shift ∉ es) :
    Accounts limit (.ok a : Except Failure α) es where
  topic := htopic
  usedUp := by
    intro e he
    cases he
  exhausted := fun shift hmem => absurd hmem (hmiss _ shift)

theorem ok_nil (a : α) : Accounts limit (.ok a : Except Failure α) [] :=
  of_ok (by simp) (by simp)

theorem error_nil {e : Failure} (h : ¬ Exhausted limit e) :
    Accounts limit (.error e : Except Failure α) [] where
  topic := by simp
  usedUp := by
    rintro _ ⟨⟩ he
    exact absurd he h
  exhausted := by simp

theorem error {e : Failure} {es : List Event}
    (h : Accounts limit (.error e : Except Failure α) es) :
    Accounts limit (.error e : Except Failure β) es where
  topic := h.topic
  usedUp := by
    rintro _ ⟨⟩ he
    exact h.usedUp e rfl he
  exhausted := by
    intro shift hmem
    obtain ⟨_, ⟨⟩, he⟩ := h.exhausted shift hmem
    exact ⟨e, rfl, he⟩

/-- A search that returned has left no full run of misses for those that follow. -/
theorem append {a : α} {r : Except Failure β} {es es' : List Event}
    (h : Accounts limit (.ok a : Except Failure α) es) (h' : Accounts limit r es') :
    Accounts limit r (es' ++ es) where
  topic := by
    intro e he
    rcases List.mem_append.mp he with he | he
    · exact h'.topic e he
    · exact h.topic e he
  usedUp := by
    intro e hr he
    obtain ⟨shifts, hlen, hinfix⟩ := h'.usedUp e hr he
    refine ⟨shifts, hlen, ?_⟩
    rw [List.reverse_append]
    exact hinfix.trans (List.suffix_append _ _).isInfix
  exhausted := by
    intro shift hmem
    rcases List.mem_append.mp hmem with hmem | hmem
    · exact h'.exhausted shift hmem
    · obtain ⟨_, ⟨⟩, -⟩ := h.exhausted shift hmem

end Accounts

theorem tells_bind {limit : ℤ} {x : Search σ α} {f : α → Search σ β}
    (hx : x.Tells (Accounts limit)) (hf : ∀ a, (f a).Tells (Accounts limit)) :
    (x >>= f).Tells (Accounts limit) := by
  refine hx.bind (fun e es h => h.error) fun a es h => ?_
  exact (hf a).mono fun r es' h' => h.append h'

theorem tells_note_bind {limit : ℤ} {e : Event} {f : Unit → Search σ β}
    (htopic : e.topic = .roots) (hmiss : ∀ number shift, e ≠ .splitMissed number shift)
    (hf : (f ()).Tells (Accounts limit)) : (Search.note e >>= f).Tells (Accounts limit) := by
  have hnoted : Accounts limit (.ok () : Except Failure Unit) [e] := by
    refine .of_ok ?_ fun number shift hmem => ?_
    · simpa using htopic
    · exact hmiss number shift (List.mem_singleton.mp hmem).symm
  exact Search.tells_note_bind (hf.mono fun r es h => hnoted.append h)

theorem not_exhausted_arithmetic (limit : ℤ) (e : ArithmeticError) :
    ¬ Exhausted limit (.arithmetic e) := by
  rintro ⟨d, hd⟩
  cases hd

variable [Source σ]

/-- How a split ends at the next of the shifts that it may still draw, or for want of one. -/
inductive SplitEnds (limit : ℤ) (h : Poly m) :
    List (Residue m) → Except Failure { g : Poly m // h.IsProperPart g } → Prop where
  /-- There is no shift left. -/
  | exhausted : SplitEnds limit h [] (.error (.internal (.splitExhausted h.degree limit)))
  /-- The shift separates a part. -/
  | separated {a : Residue m} {rest : List (Residue m)} {part : { g : Poly m // h.IsProperPart g }}
    (hclass : h.squareClass a = .ok part.1) : SplitEnds limit h (a :: rest) (.ok part)
  /-- The shift has no class, as can be over a composite modulus. -/
  | faulted {a : Residue m} {rest : List (Residue m)} {e : ArithmeticError}
    (hclass : h.squareClass a = .error e) : SplitEnds limit h (a :: rest) (.error (.arithmetic e))

theorem SplitEnds.exhausted_iff {limit : ℤ} {h : Poly m} {rest : List (Residue m)}
    {r : Except Failure { g : Poly m // h.IsProperPart g }} (hends : SplitEnds limit h rest r) :
    (∃ e, r = .error e ∧ Exhausted limit e) ↔ rest = [] := by
  cases hends with
  | exhausted => exact iff_of_true ⟨_, rfl, h.degree, rfl⟩ rfl
  | separated hclass =>
    refine iff_of_false ?_ (List.cons_ne_nil _ _)
    rintro ⟨e, he, -⟩
    cases he
  | faulted hclass =>
    refine iff_of_false ?_ (List.cons_ne_nil _ _)
    rintro ⟨_, ⟨⟩, he⟩
    exact not_exhausted_arithmetic limit _ he

/-- What a split does with the random residues that come next. It draws them up to the one at which
it ends, or all that it may. Those before that one are just the shifts that it notes, and the class
of each of them is no proper part. -/
theorem splitFrom_draws (limit : ℤ) (h : Poly m) (left tried : ℕ) (s : Session σ) :
    let run := (splitFrom limit h left tried : Search σ _).run.run s
    ∃ missed rest, (Instance.randomResidues m left s.sampler).1 = missed ++ rest ∧
      (∀ a ∈ missed, Shift.Misses a h) ∧ SplitEnds limit h rest run.1 ∧
      run.2.sampler = (Instance.randomResidues m (missed ++ rest.take 1).length s.sampler).2 ∧
      run.2.journal = (misses tried (missed.map (·.val))).reverse ++ s.journal := by
  induction left generalizing tried s with
  | zero => exact ⟨[], [], rfl, by simp, .exhausted, rfl, rfl⟩
  | succ left ih =>
    rw [Session.randomResidues_succ]
    cases hclass : h.squareClass (s.shift m) with
    | error e =>
      rw [run_splitFrom_fault hclass]
      exact ⟨[], _, rfl, by simp, .faulted hclass, rfl, rfl⟩
    | ok g =>
      by_cases hpart : h.IsProperPart g
      · rw [run_splitFrom_hit hclass hpart]
        exact ⟨[], _, rfl, by simp, .separated hclass, rfl, rfl⟩
      · -- One more miss comes before those of the shifts that are left.
        rw [run_splitFrom_miss hclass hpart]
        obtain ⟨missed, rest, hdrawn, hmissed, hends, hsampler, hjournal⟩ := ih (tried + 1)
          ((s.advance m).noted (.splitMissed (tried + 1) (s.shift m).val))
        refine ⟨s.shift m :: missed, rest, congrArg (s.shift m :: ·) hdrawn, ?_, hends,
          hsampler, ?_⟩
        · exact List.forall_mem_cons.mpr ⟨⟨g, hclass, hpart⟩, hmissed⟩
        · rw [hjournal, List.map_cons, misses, List.reverse_cons, List.append_assoc]
          rfl

/-- Each shift that was tried before a part was found, or before there were no more, has missed. -/
theorem tells_splitFrom (limit : ℤ) (h : Poly m) (left tried : ℕ) :
    (splitFrom limit h left tried : Search σ _).Tells fun r es =>
      ∃ shifts : List ℕ, es = (misses tried shifts).reverse ∧ shifts.length ≤ left ∧
        ((∃ e, r = .error e ∧ Exhausted limit e) ↔ shifts.length = left) := by
  intro s
  obtain ⟨missed, rest, hdrawn, -, hends, -, hjournal⟩ := splitFrom_draws limit h left tried s
  have hlength : missed.length + rest.length = left := by
    rw [← List.length_append, ← hdrawn, Instance.length_randomResidues]
  refine ⟨_, hjournal, _, rfl, ?_, ?_⟩
  · rw [List.length_map]
    omega
  · rw [hends.exhausted_iff, List.length_map, ← List.length_eq_zero_iff]
    omega

theorem tells_split (limit : ℤ) (h : Poly m) :
    (split limit h : Search σ _).Tells (Accounts limit) := by
  refine (tells_splitFrom limit h limit.toNat 0).mono ?_
  rintro r _ ⟨shifts, rfl, hle, hiff⟩
  refine ⟨?_, ?_, ?_⟩
  · intro e he
    obtain ⟨number, shift, rfl, -⟩ := eq_of_mem_misses (List.mem_reverse.mp he)
    rfl
  · intro e hr he
    refine ⟨shifts, hiff.mp ⟨e, hr, he⟩, ?_⟩
    rw [List.reverse_reverse]
  · intro shift hmem
    obtain ⟨number, shift', heq, hlt, hnumber⟩ := eq_of_mem_misses (List.mem_reverse.mp hmem)
    obtain ⟨rfl, -⟩ := Event.splitMissed.inj heq
    exact hiff.mpr (by omega)

theorem tells_linearRoots (limit : ℤ) (h : Poly m) :
    (linearRoots limit h : Search σ _).Tells (Accounts limit) := by
  induction hn : h.size using Nat.strong_induction_on generalizing h with
  | _ n ih =>
    subst hn
    rw [linearRoots]
    split
    · exact Search.tells_pure (.ok_nil _)
    · refine tells_bind (tells_split limit h) fun found => ?_
      obtain ⟨part, hproper⟩ := found
      simp only
      split
      · exact Search.tells_throw (.error_nil (not_exhausted_arithmetic limit _))
      · rename_i qr hqr
        have hothers := ih qr.1.size (Poly.size_quotient_lt hproper hqr) qr.1 rfl
        have hthese := ih part.size (Poly.size_lt_of_isProperPart hproper) part rfl
        refine tells_bind hothers fun others => tells_bind hthese fun these => ?_
        exact Search.tells_pure (.ok_nil _)

theorem tells_distinctRoots (limit : ℤ) (f : Poly m) :
    (distinctRoots limit f : Search σ _).Tells (Accounts limit) := by
  rw [distinctRoots]
  split
  · exact Search.tells_pure (.ok_nil _)
  · refine Search.tells_ofArithmetic_bind (fun h _ => ?_) fun e _ => ?_
    · refine tells_note_bind rfl (by simp) ?_
      split
      · exact Search.tells_pure (.ok_nil _)
      · split
        · exact Search.tells_pure (.ok_nil _)
        · exact tells_linearRoots limit h
    · exact .error_nil (not_exhausted_arithmetic limit e)

end Frobenius

/-! ## Finders -/

variable [Source σ] {finder : Finder} {limit : ℤ}

open Frobenius

theorem Finder.tells_distinctRoots_frobenius (attempts : ℤ) (f : Poly m) :
    ((frobenius attempts).distinctRoots f : Search σ _).Tells (Accounts attempts) :=
  tells_bind (Frobenius.tells_distinctRoots attempts f) fun _ => Search.tells_pure (.ok_nil _)

theorem Finder.tells_distinctRoots_exhaustive (bound : ℤ) (f : Poly m) :
    ((exhaustive bound).distinctRoots f : Search σ _).Tells (Accounts limit) := by
  rw [distinctRoots, Exhaustive.distinctRoots]
  by_cases hbound : bound < m.value
  · rw [if_pos hbound]
    refine Search.tells_abandon (.error_nil ?_)
    rintro ⟨d, hd⟩
    cases hd
  · rw [if_neg hbound]
    exact Search.tells_pure (.ok_nil _)

theorem Finder.tells_countedRoots
    (hfound : ∀ g : Poly m, (finder.distinctRoots g : Search σ _).Tells (Accounts limit))
    (f : Poly m) : (finder.countedRoots f : Search σ _).Tells (Accounts limit) := by
  rw [countedRoots]
  split
  · exact Search.tells_throw (.error_nil (not_exhausted_arithmetic limit _))
  · refine Search.tells_ofArithmetic_bind (fun g _ => ?_) fun e _ => ?_
    · refine tells_bind (hfound g) fun rs => ?_
      cases hcount : countRoots g (rs.mergeSort (· ≤ ·)) with
      | ok roots => exact Search.tells_pure (.ok_nil _)
      | error e =>
        obtain ⟨r, -, rfl⟩ := eq_notARoot_of_countRootsFrom hcount
        refine Search.tells_abandon (.error_nil ?_)
        rintro ⟨d, hd⟩
        cases hd
    · exact .error_nil (not_exhausted_arithmetic limit e)

theorem tells_extractRoots
    (hfound : ∀ g : Poly m, (finder.distinctRoots g : Search σ _).Tells (Accounts limit))
    (es : List (Residue m)) : (extractRoots es finder : Search σ _).Tells (Accounts limit) := by
  have hroots : (finder.rootsWithMultiplicity (Poly.ofElementary es) : Search σ _).Tells
      (Accounts limit) := by
    cases finder with
    | tabulated roots => exact Search.tells_pure (.ok_nil _)
    | _ => exact Finder.tells_countedRoots hfound _
  refine tells_bind hroots fun roots => ?_
  cases hdefect : roots.defect m es.length with
  | none => exact tells_note_bind rfl (by simp) (Search.tells_pure (.ok_nil _))
  | some e =>
    refine Search.tells_throw (.error_nil ?_)
    rintro ⟨d, hd⟩
    rcases RootMultiset.defect_cases hdefect with ⟨r, k, rfl⟩ | rfl | rfl <;> cases hd

end MultisetRecovery

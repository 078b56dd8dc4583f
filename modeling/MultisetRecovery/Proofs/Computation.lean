import MultisetRecovery.RootSearch.Session

/-!
# Reasoning about computations that can fail

An operation that may be undefined has a value exactly if each of its steps has one. Of a search
one says what holds of the value that it returns and of the failure that it ends with
(`Search.Ensures`), and how these go with the events that it adds to the journal (`Search.Tells`),
whatever session it is started in and whatever numbers it draws. For both there is one rule for each
step that a search can take.
-/

namespace Except

variable {ε α β : Type}

@[simp]
theorem pure_eq_ok (a : α) : (pure a : Except ε α) = .ok a := rfl

@[simp]
theorem ok_bind (a : α) (f : α → Except ε β) : (Except.ok a >>= f) = f a := rfl

@[simp]
theorem error_bind (e : ε) (f : α → Except ε β) :
    ((Except.error e : Except ε α) >>= f) = .error e := rfl

/-- A computation in two steps has a value if the first step has one that the second takes to
it. -/
theorem bind_eq_ok_iff {x : Except ε α} {f : α → Except ε β} {b : β} :
    (x >>= f) = .ok b ↔ ∃ a, x = .ok a ∧ f a = .ok b := by
  cases x with
  | error e => simp
  | ok a => simp

/-- It fails if either step does. -/
theorem bind_eq_error_iff {x : Except ε α} {f : α → Except ε β} {e : ε} :
    (x >>= f) = .error e ↔ x = .error e ∨ ∃ a, x = .ok a ∧ f a = .error e := by
  cases x with
  | error e' => simp
  | ok a => simp

end Except

namespace MultisetRecovery.Search

variable {σ α β : Type}

/-- Whatever session a search is started in, the value that it returns or the failure that it ends
with is one of these. -/
def Ensures (x : Search σ α) (returns : α → Prop) (fails : Failure → Prop) : Prop :=
  ∀ s : Session σ,
    match (x.run.run s).1 with
    | .ok a => returns a
    | .error e => fails e

variable {Q : α → Prop} {R : β → Prop} {E : Failure → Prop}

theorem Ensures.of_ok {x : Search σ α} (h : x.Ensures Q E) {s : Session σ} {a : α}
    (hx : (x.run.run s).1 = .ok a) : Q a := by
  have hs := h s
  rw [hx] at hs
  exact hs

theorem Ensures.of_error {x : Search σ α} (h : x.Ensures Q E) {s : Session σ} {e : Failure}
    (hx : (x.run.run s).1 = .error e) : E e := by
  have hs := h s
  rw [hx] at hs
  exact hs

theorem Ensures.of_run {x : Search σ α} (h : x.Ensures Q E) {s t : Session σ} {a : α}
    (hx : x.run.run s = (.ok a, t)) : Q a := h.of_ok (congrArg Prod.fst hx)

theorem Ensures.of_run_error {x : Search σ α} (h : x.Ensures Q E) {s t : Session σ} {e : Failure}
    (hx : x.run.run s = (.error e, t)) : E e := h.of_error (congrArg Prod.fst hx)

theorem Ensures.mono {x : Search σ α} {Q' : α → Prop} {E' : Failure → Prop} (h : x.Ensures Q E)
    (hQ : ∀ a, Q a → Q' a) (hE : ∀ e, E e → E' e) : x.Ensures Q' E' := by
  intro s
  have hs := h s
  revert hs
  cases (x.run.run s).1 with
  | ok a => exact hQ a
  | error e => exact hE e

theorem Ensures.and {x : Search σ α} {Q' : α → Prop} {E' : Failure → Prop} (h : x.Ensures Q E)
    (h' : x.Ensures Q' E') : x.Ensures (fun a => Q a ∧ Q' a) (fun e => E e ∧ E' e) := by
  intro s
  have hs := h s
  have hs' := h' s
  revert hs hs'
  cases (x.run.run s).1 with
  | ok a => exact And.intro
  | error e => exact And.intro

theorem ensures_trivial (x : Search σ α) : x.Ensures (fun _ => True) (fun _ => True) := by
  intro s
  cases (x.run.run s).1 with
  | ok a => trivial
  | error e => trivial

theorem ensures_pure {a : α} (h : Q a) : (pure a : Search σ α).Ensures Q E := fun _ => h

theorem ensures_throw {e : Failure} (h : E e) : (throw e : Search σ α).Ensures Q E := fun _ => h

theorem ensures_abandon {e : InternalError} (h : E (.internal e)) :
    (abandon e : Search σ α).Ensures Q E := fun _ => h

theorem ensures_note (e : Event) : (note e : Search σ Unit).Ensures (fun _ => True) E :=
  fun _ => trivial

theorem ensures_residue [Source σ] (m : Modulus) :
    (residue m : Search σ (Residue m)).Ensures (fun _ => True) E := fun _ => trivial

theorem ensures_ofArithmetic {a : α} {x : Except ArithmeticError α} (hx : x = .ok a) (h : Q a) :
    (ofArithmetic x : Search σ α).Ensures Q E := by
  subst hx
  exact fun _ => h

theorem run_bind (x : Search σ α) (f : α → Search σ β) (s : Session σ) :
    (x >>= f).run.run s =
      match x.run.run s with
      | (.ok a, t) => (f a).run.run t
      | (.error e, t) => (.error e, t) := by
  rw [ExceptT.run_bind, StateT.run_bind]
  rcases x.run.run s with ⟨a | e, t⟩ <;> rfl

/-- What the first step ensures is all that the steps after it are told. -/
theorem Ensures.bind {x : Search σ α} {f : α → Search σ β} (hx : x.Ensures Q E)
    (hf : ∀ a, Q a → (f a).Ensures R E) : (x >>= f).Ensures R E := by
  intro s
  have hs := hx s
  rw [run_bind]
  revert hs
  rcases x.run.run s with ⟨e | a, t⟩
  · exact id
  · intro ha
    exact hf a ha t

/-! ## The journal -/

/-- Whatever session a search is started in, the events that it adds to the journal, latest first,
go with how it ends. -/
def Tells (x : Search σ α) (R : Except Failure α → List Event → Prop) : Prop :=
  ∀ s : Session σ, ∃ es, (x.run.run s).2.journal = es ++ s.journal ∧ R (x.run.run s).1 es

variable {T : Except Failure α → List Event → Prop} {U : Except Failure β → List Event → Prop}

theorem Tells.mono {x : Search σ α} {T' : Except Failure α → List Event → Prop} (h : x.Tells T)
    (hT : ∀ r es, T r es → T' r es) : x.Tells T' := by
  intro s
  obtain ⟨es, hes, hr⟩ := h s
  exact ⟨es, hes, hT _ _ hr⟩

theorem tells_pure {a : α} (h : T (.ok a) []) : (pure a : Search σ α).Tells T :=
  fun _ => ⟨[], rfl, h⟩

theorem tells_throw {e : Failure} (h : T (.error e) []) : (throw e : Search σ α).Tells T :=
  fun _ => ⟨[], rfl, h⟩

theorem tells_abandon {e : InternalError} (h : T (.error (.internal e)) []) :
    (abandon e : Search σ α).Tells T := fun _ => ⟨[], rfl, h⟩

theorem tells_residue_bind [Source σ] {m : Modulus} {f : Residue m → Search σ β}
    (hf : ∀ a, (f a).Tells U) : (residue m >>= f).Tells U := by
  intro s
  rw [run_bind]
  exact hf _ _

theorem tells_ofArithmetic_bind {x : Except ArithmeticError α} {f : α → Search σ β}
    (hf : ∀ a, x = .ok a → (f a).Tells U)
    (herror : ∀ e, x = .error e → U (.error (.arithmetic e)) []) :
    (ofArithmetic x >>= f).Tells U := by
  cases x with
  | ok a =>
    intro s
    rw [run_bind]
    exact hf a rfl s
  | error e => exact fun s => ⟨[], rfl, herror e rfl⟩

theorem tells_note_bind {e : Event} {f : Unit → Search σ β}
    (hf : (f ()).Tells fun r es => U r (es ++ [e])) : (note e >>= f).Tells U := by
  intro s
  obtain ⟨es, hjournal, hU⟩ := hf { s with journal := e :: s.journal }
  refine ⟨es ++ [e], ?_, hU⟩
  rw [run_bind, List.append_assoc]
  exact hjournal

/-- The events of the second step come on top of those of the first. -/
theorem Tells.bind {x : Search σ α} {f : α → Search σ β} (hx : x.Tells T)
    (herror : ∀ e es, T (.error e) es → U (.error e) es)
    (hok : ∀ a es, T (.ok a) es → (f a).Tells fun r es' => U r (es' ++ es)) :
    (x >>= f).Tells U := by
  intro s
  obtain ⟨es, hjournal, hT⟩ := hx s
  rw [run_bind]
  revert hjournal hT
  rcases x.run.run s with ⟨e | a, t⟩
  · intro hjournal hT
    exact ⟨es, hjournal, herror e es hT⟩
  · intro hjournal hT
    obtain ⟨es', hjournal', hU⟩ := hok a es hT t
    refine ⟨es' ++ es, ?_, hU⟩
    simp only at hjournal hjournal' ⊢
    rw [hjournal', hjournal, List.append_assoc]

end MultisetRecovery.Search

import Mathlib.Data.List.Perm.Basic
import MultisetRecovery.Proofs.BufferWriting
import MultisetRecovery.Proofs.Multiplicity
import MultisetRecovery.RootSearch.Finder

/-!
# Roots are written out as they are

A root multiset without defects (`RootMultiset.Fits`) is written out in ascending order, each root
as often as its multiplicity says, and its linear factors are those of the values that are written.
Buffers that have passed the checks take them.
-/

open Polynomial

namespace MultisetRecovery

variable {m : Modulus}

namespace RootMultiset

/-! ## Root multisets without defects -/

/-- Least representatives with positive multiplicities that add up to `n`. -/
structure Fits (m : Modulus) (n : ℕ) (s : RootMultiset) : Prop where
  /-- All roots are least representatives. -/
  canonical : ∀ e ∈ s.entries, m.IsCanonical e.1
  /-- All multiplicities are positive. -/
  pos : ∀ e ∈ s.entries, 1 ≤ e.2
  /-- The multiplicities add up. -/
  total : s.total = n

theorem defect_eq_none_iff {n : ℕ} {s : RootMultiset} : s.defect m n = none ↔ s.Fits m n := by
  have hfind : s.entries.find? (fun e => ¬ m.IsCanonical e.1 ∨ e.2 < 1) = none ↔
      ∀ e ∈ s.entries, m.IsCanonical e.1 ∧ 1 ≤ e.2 := by
    simp [List.find?_eq_none]
  unfold defect
  constructor
  · intro h
    split at h
    · cases h
    rename_i hnone
    have hall := hfind.mp hnone
    split at h
    · cases h
    split at h
    · cases h
    exact ⟨fun e he => (hall e he).1, fun e he => (hall e he).2, by omega⟩
  · intro h
    have htotal := h.total
    rw [hfind.mpr fun e he => ⟨h.canonical e he, h.pos e he⟩]
    simp [htotal]

/-- With the representatives and multiplicities in order, only the number of the roots can be
wrong. -/
theorem defect_eq_of_canonical {n : ℕ} {s : RootMultiset}
    (h : ∀ e ∈ s.entries, m.IsCanonical e.1 ∧ 1 ≤ e.2) :
    s.defect m n = if (n : ℤ) < s.total then some (.internal (.tooManyRoots s.total n))
      else if s.total < n then some (.noSolution (.doesNotSplit s.total n)) else none := by
  have hfind : s.entries.find? (fun e => ¬ m.IsCanonical e.1 ∨ e.2 < 1) = none := by
    rw [List.find?_eq_none]
    intro e he
    have hpos := (h e he).2
    simp [(h e he).1, hpos]
  rw [defect, hfind]

/-- A defect is a bad entry, or the number of the roots. -/
theorem defect_cases {n : ℕ} {s : RootMultiset} {e : Failure} (h : s.defect m n = some e) :
    (∃ r k, e = .internal (.malformedRoot r k)) ∨ e = .internal (.tooManyRoots s.total n) ∨
      e = .noSolution (.doesNotSplit s.total n) := by
  unfold defect at h
  split at h
  · exact .inl ⟨_, _, (Option.some.inj h).symm⟩
  · split at h
    · exact .inr (.inl (Option.some.inj h).symm)
    · split at h
      · exact .inr (.inr (Option.some.inj h).symm)
      · cases h

/-! ## The list of all roots -/

theorem pairwise_flatten (s : RootMultiset) : s.flatten.Pairwise (· ≤ ·) := by
  have hsorted : s.sorted.Pairwise fun a b => a.1 ≤ b.1 := by
    have h : s.sorted.Pairwise fun a b => decide (a.1 ≤ b.1) = true :=
      List.pairwise_mergeSort (by simp; omega) (by simp; omega) s.entries
    exact h.imp of_decide_eq_true
  rw [flatten, List.pairwise_flatMap]
  refine ⟨fun e _ => List.pairwise_replicate_of_refl, hsorted.imp ?_⟩
  intro a b hab x hx y hy
  rw [List.eq_of_mem_replicate hx, List.eq_of_mem_replicate hy]
  exact hab

theorem perm_flatten (s : RootMultiset) :
    s.flatten.Perm (s.entries.flatMap fun e => List.replicate e.2.toNat e.1) :=
  (List.mergeSort_perm _ _).flatMap_right _

theorem mem_flatten {s : RootMultiset} {r : ℤ} :
    r ∈ s.flatten ↔ ∃ k, (r, k) ∈ s.entries ∧ 1 ≤ k := by
  rw [s.perm_flatten.mem_iff, List.mem_flatMap]
  constructor
  · rintro ⟨⟨r', k⟩, he, hr⟩
    obtain ⟨hk, rfl⟩ := List.mem_replicate.mp hr
    exact ⟨k, he, by omega⟩
  · rintro ⟨k, he, hk⟩
    exact ⟨(r, k), he, List.mem_replicate.mpr ⟨by omega, rfl⟩⟩

theorem Fits.length_flatten {n : ℕ} {s : RootMultiset} (h : s.Fits m n) : s.flatten.length = n := by
  have hlength : (s.flatten.length : ℤ) = s.total := by
    rw [s.perm_flatten.length_eq, List.length_flatMap, total_eq_sum, Nat.cast_list_sum,
      List.map_map]
    refine congrArg List.sum (List.map_congr_left fun e he => ?_)
    have hpos := h.pos e he
    rw [Function.comp_apply, List.length_replicate]
    omega
  exact_mod_cast hlength.trans h.total

/-- The product of the linear factors is that over all roots as they are written out. -/
theorem product_eq_flatten (s : RootMultiset) :
    s.product m = (s.flatten.map fun r : ℤ => X - C (r : ZMod m.value)).prod := by
  rw [(s.perm_flatten.map _).prod_eq, product]
  induction s.entries with
  | nil => rfl
  | cons e es ih =>
    rw [List.map_cons, List.prod_cons, ih, List.flatMap_cons, List.map_append, List.prod_append,
      List.map_replicate, List.prod_replicate]

/-- A root counts exactly if it is written out. -/
theorem Fits.one_le_count_iff {n : ℕ} {s : RootMultiset} (h : s.Fits m n) {r : ℤ} :
    1 ≤ s.count r ↔ r ∈ s.flatten := by
  rw [count, mem_flatten]
  cases hlookup : s.entries.lookup r with
  | none =>
    rw [List.lookup_eq_none_iff] at hlookup
    constructor
    · intro hk
      simp at hk
    · rintro ⟨k, hk, -⟩
      exact absurd (hlookup _ hk) (by simp)
  | some k =>
    obtain ⟨before, after, heq, -⟩ := List.lookup_eq_some_iff.mp hlookup
    have hmem : (r, k) ∈ s.entries := by simp [heq]
    constructor
    · intro hk
      exact ⟨k, hmem, hk⟩
    · intro _
      exact h.pos _ hmem

/-! ## Messages -/

/-- The roots as natural numbers, as they are written out. -/
def values (s : RootMultiset) : List ℕ := s.flatten.map Int.toNat

theorem pairwise_values (s : RootMultiset) : s.values.Pairwise (· ≤ ·) :=
  List.pairwise_map.mpr (s.pairwise_flatten.imp Int.toNat_le_toNat)

/-- Entries in ascending order are written out in their order. -/
theorem values_of_pairwise {s : RootMultiset} (h : s.entries.Pairwise fun a b => a.1 ≤ b.1) :
    s.values = s.entries.flatMap fun e => List.replicate e.2.toNat e.1.toNat := by
  have hsorted : s.sorted = s.entries :=
    List.mergeSort_of_pairwise (h.imp fun hab => decide_eq_true hab)
  rw [values, flatten, hsorted, List.map_flatMap]
  simp only [List.map_replicate]

namespace Fits

variable {n : ℕ} {s : RootMultiset} (h : s.Fits m n)

include h

theorem length_values : s.values.length = n := by
  rw [values, List.length_map, h.length_flatten]

theorem isCanonical {r : ℤ} (hr : r ∈ s.flatten) : m.IsCanonical r := by
  obtain ⟨k, he, -⟩ := mem_flatten.mp hr
  exact h.canonical _ he

theorem flatten_eq : s.flatten = s.values.map Int.ofNat := by
  rw [values, List.map_map]
  conv_lhs => rw [← List.map_id s.flatten]
  refine List.map_congr_left fun r hr => ?_
  exact (Int.toNat_of_nonneg (h.isCanonical hr).1).symm

theorem mem_values_iff {x : ℕ} : x ∈ s.values ↔ (x : ℤ) ∈ s.flatten := by
  rw [h.flatten_eq]
  exact (List.mem_map_of_injective Int.ofNat_injective).symm

/-- The values are the roots. -/
theorem mem_values_iff_mem_keys {x : ℕ} : x ∈ s.values ↔ (x : ℤ) ∈ s.entries.map (·.1) := by
  rw [h.mem_values_iff, mem_flatten, List.mem_map]
  constructor
  · rintro ⟨k, hk, -⟩
    exact ⟨_, hk, rfl⟩
  · rintro ⟨⟨r, k⟩, hk, rfl⟩
    exact ⟨k, hk, h.pos _ hk⟩

theorem lt_of_mem_values {x : ℕ} (hx : x ∈ s.values) : x < m.value := by
  obtain ⟨r, hr, rfl⟩ := List.mem_map.mp hx
  have hcanonical := h.isCanonical hr
  unfold Modulus.IsCanonical at hcanonical
  omega

/-- The linear factors are those of the values. -/
theorem product_eq : s.product m =
    (Multiset.map (fun x => X - C x) (s.values.map (Nat.cast : ℕ → ZMod m.value))).prod := by
  rw [product_eq_flatten, h.flatten_eq, List.map_map, Multiset.map_coe, Multiset.prod_coe,
    List.map_map]
  simp [Function.comp_def]

/-- Nothing is wrong with the number of the roots, so the caller's own message decides. -/
theorem assemble_eq (own : ℕ) :
    s.assemble own n = if own ∈ s.values then .ok (s.values.map Hex.encode)
      else .error (.ownMessageMissing own) := by
  have hmessages : s.flatten.map Hex.encodeInt = s.values.map Hex.encode := by
    rw [h.flatten_eq, List.map_map]
    exact List.map_congr_left fun x _ => Hex.encodeInt_natCast x
  unfold assemble
  by_cases hown : own ∈ s.values
  · have hcount := h.one_le_count_iff.mpr (h.mem_values_iff.mp hown)
    simp only [h.length_flatten, hmessages]
    rw [if_neg (by simp), if_neg (by omega), if_pos hown]
  · have hcount : ¬ 1 ≤ s.count own := fun hc =>
      hown (h.mem_values_iff.mpr (h.one_le_count_iff.mp hc))
    simp only [h.length_flatten]
    rw [if_neg (by simp), if_pos (by omega), if_neg hown]

end Fits

end RootMultiset

/-! ## Buffers -/

namespace Buffers

/-- What is written of a number: its digits and a zero byte. -/
def record (x : ℕ) : List UInt8 := Value.codes (Hex.digits x) ++ [0]

theorem filled_encode (x : ℕ) (b : List UInt8) :
    filled (Hex.encode x) b = overwrite (record x) b := by
  rw [filled, terminated, Hex.toList_encode, record]

theorem accepts_encode {needed : ℕ} {b : List UInt8} (hroom : needed ≤ b.length) (x : ℕ) :
    Accepts needed (Hex.encode x) b := by
  refine ⟨hroom, ?_⟩
  rw [Hex.toList_encode]
  exact Hex.forall_mem_digits (by decide) x

theorem writeFrom_encode {needed : ℕ} {values : List ℕ} {held : List (List UInt8)}
    (hlen : held.length = values.length) (hroom : ∀ b ∈ held, needed ≤ b.length) :
    writeFrom needed (values.map Hex.encode) held =
      (List.zipWith (fun x b => overwrite (record x) b) values held, none) := by
  have haccepts : List.Forall₂ (Accepts needed) (values.map Hex.encode) held := by
    rw [List.forall₂_map_left_iff, List.forall₂_iff_zip]
    exact ⟨hlen.symm, fun h => accepts_encode (hroom _ (List.of_mem_zip h).2) _⟩
  have hwritten := writeFrom_append haccepts [] []
  rw [List.append_nil, List.append_nil] at hwritten
  rw [hwritten, List.zipWith_map_left]
  simp only [filled_encode, writeFrom, List.append_nil]

/-- Buffers with room for every residue take as many numbers as they are. -/
theorem write_encode {values : List ℕ} {held : List (List UInt8)}
    (hlen : held.length = values.length) (hroom : ∀ b ∈ held, m.bufferSize ≤ b.length) :
    write m (values.map Hex.encode) held =
      (List.zipWith (fun x b => overwrite (record x) b) values held, none) := by
  rw [write, if_neg (by simp [hlen]), writeFrom_encode hlen hroom]

end Buffers

namespace Value

theorem map_heldBytes_buffer (held : List (List UInt8)) :
    (held.map buffer).map heldBytes = held := by
  rw [List.map_map]
  exact List.map_id held

theorem writeBuffers_list {messages : List String} {held written : List (List UInt8)}
    {e : Option BufferError} (h : Buffers.write m messages held = (written, e)) :
    (list (held.map buffer)).writeBuffers m messages = (list (written.map buffer), e) := by
  simp only [writeBuffers, map_heldBytes_buffer, h]

theorem writeBuffers_tuple {messages : List String} {held written : List (List UInt8)}
    {e : Option BufferError} (h : Buffers.write m messages held = (written, e)) :
    (tuple (held.map buffer)).writeBuffers m messages = (tuple (written.map buffer), e) := by
  simp only [writeBuffers, map_heldBytes_buffer, h]

theorem exists_held_of_hasRoom {needed : ℕ} {vs : List Value} (h : ∀ b ∈ vs, b.HasRoom needed) :
    ∃ held : List (List UInt8), vs = held.map buffer ∧ ∀ b ∈ held, needed ≤ b.length := by
  induction vs with
  | nil => exact ⟨[], rfl, by simp⟩
  | cons v vs ih =>
    obtain ⟨held, rfl, hheld⟩ := ih fun b hb => h b (List.mem_cons_of_mem v hb)
    obtain ⟨data, rfl, hdata⟩ := h v List.mem_cons_self
    exact ⟨data :: held, rfl, List.forall_mem_cons.mpr ⟨hdata, hheld⟩⟩

/-- Buffers that have passed the checks are bytes in a list or a tuple, unless there are none. -/
theorem Receives.exists_held {needed count : ℕ} {v : Value} (h : v.Receives needed count) :
    v = .absent ∨ ∃ held : List (List UInt8), held.length = count ∧
      (∀ b ∈ held, needed ≤ b.length) ∧
      (v = .list (held.map buffer) ∨ v = .tuple (held.map buffer)) := by
  rcases h with rfl | ⟨vs, hvs, hlen, hroom⟩
  · exact .inl rfl
  · obtain ⟨held, rfl, hheld⟩ := exists_held_of_hasRoom hroom
    refine .inr ⟨held, by rwa [List.length_map] at hlen, hheld, ?_⟩
    cases v with
    | list _ =>
      cases hvs
      exact .inl rfl
    | tuple _ =>
      cases hvs
      exact .inr rfl
    | _ => cases hvs

/-- Nothing goes wrong with buffers that have passed the checks. -/
theorem Receives.writeBuffers_snd {v : Value} {values : List ℕ}
    (h : v.Receives m.bufferSize values.length) :
    (v.writeBuffers m (values.map Hex.encode)).2 = none := by
  rcases h.exists_held with rfl | ⟨held, hlen, hroom, rfl | rfl⟩
  · rfl
  · rw [writeBuffers_list (Buffers.write_encode hlen hroom)]
  · rw [writeBuffers_tuple (Buffers.write_encode hlen hroom)]

end Value

end MultisetRecovery

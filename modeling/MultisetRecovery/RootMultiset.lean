/-!
# Multisets of roots

Roots with their multiplicities, in the order in which they were entered. Entering a root again
replaces its multiplicity and keeps its place.
-/

namespace MultisetRecovery

/-- Distinct roots, each with a multiplicity. -/
structure RootMultiset where
  /-- The roots and multiplicities, in the order of entry. -/
  entries : List (Int × Int)
deriving DecidableEq

namespace RootMultiset

/-- The entries with the multiplicity of `r` set to `k`. -/
def setEntry (r k : Int) : List (Int × Int) → List (Int × Int)
  | [] => [(r, k)]
  | e :: es => if e.1 = r then (r, k) :: es else e :: setEntry r k es

/-- The multiset without roots. -/
def empty : RootMultiset := ⟨[]⟩

/-- The multiset with the multiplicity of `r` set to `k`. -/
def insert (s : RootMultiset) (r k : Int) : RootMultiset := ⟨setEntry r k s.entries⟩

/-- The multiset of a list of pairs, entered in order. -/
def ofList (pairs : List (Int × Int)) : RootMultiset :=
  pairs.foldl (fun s e => s.insert e.1 e.2) empty

/-- The multiplicity of a root; zero if it is not entered. -/
def count (s : RootMultiset) (r : Int) : Int := (s.entries.lookup r).getD 0

/-- The sum of the multiplicities. -/
def total (s : RootMultiset) : Int := s.entries.foldr (fun e acc => e.2 + acc) 0

/-- The number of distinct roots. -/
def size (s : RootMultiset) : Nat := s.entries.length

/-- The entries in ascending order of the roots. -/
def sorted (s : RootMultiset) : List (Int × Int) := s.entries.mergeSort fun a b => a.1 ≤ b.1

/-- Each root as often as its multiplicity says, in ascending order. A multiplicity below one says
never. -/
def flatten (s : RootMultiset) : List Int :=
  s.sorted.flatMap fun e => List.replicate e.2.toNat e.1

/-- The written form. -/
def text (s : RootMultiset) : String :=
  "\x7b" ++ ", ".intercalate (s.entries.map fun e => toString e.1 ++ ": " ++ toString e.2) ++ "\x7d"

end RootMultiset

end MultisetRecovery

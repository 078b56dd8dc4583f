import MultisetRecovery.Instance.Basic
import MultisetRecovery.Poly.Printer
import MultisetRecovery.Recovery

/-!
# A walkthrough

Four small recoveries with an explanation of each: one to check by hand, one with a changed power
sum, one with two equal messages, and one over a large prime with buffers for the messages.
-/

namespace MultisetRecovery.Walkthrough

/-- A recovery that is shown: the text about it and how it ended. -/
structure Scene where
  /-- The text. -/
  text : String
  /-- How the recovery ended. -/
  report : Report

/-- A modulus that is written out as a number. -/
def modulus (value : Nat) (h : 2 ≤ value) : Modulus := ⟨value, h⟩

/-- A character so many times. -/
def rule (c : Char) (n : Nat) : String := String.ofList (List.replicate n c)

/-- Lines of text, each with its end. -/
def unlines (ls : List String) : String := String.join (ls.map (· ++ "\n"))

/-- The title of a scene. -/
def title (s : String) : String := unlines ["\n" ++ rule '=' 70, s, rule '=' 70]

/-- A truth value in words. -/
def truth (b : Bool) : String := if b then "True" else "False"

/-- The elementary symmetric functions of power sums that have them. -/
def symmetricOf {m : Modulus} (sums : List (Residue m)) : List (Residue m) :=
  (elementarySymmetric sums).toOption.getD []

/-- An entry of a list of residues, as a number. -/
def entry {m : Modulus} (rs : List (Residue m)) (i : Nat) : String := toString ((rs.getD i 0).val)

/-- How a recovery ended, in words. -/
def ending (r : Report) : String :=
  "solve(...) -> " ++ r.status.name ++ ", messages = " ++ Text.quotedList r.messages

/-- The recovery from power sums that are residues. -/
def recovery {m : Modulus} (own : Residue m) (sums : List (Residue m)) (buffers : Value)
    (seed : Int) : Recovery :=
  let request := Request.ofIntegers m.value own.val (sums.map fun s => (s.val : Int))
  { request with buffers }.recover none (some seed)

/-- Two messages modulo seven. -/
def tiny : Scene :=
  let m := modulus 7 (by decide)
  let sums := powerSums [Residue.ofNat m 1, Residue.ofNat m 3] 2
  let es := symmetricOf sums
  let report := (recovery (Residue.ofNat m 1) sums .absent 42).report
  ⟨title "DEMO 1: TINY EXAMPLE (p = 7, messages \x7b1, 3\x7d)" ++ unlines [
      "\nPower sums: p1 = 1 + 3 = " ++ entry sums 0 ++ ", p2 = 1 + 9 = 10 = " ++ entry sums 1
        ++ " (mod 7)",
      "Newton's identities: e1 = " ++ entry es 0 ++ ", e2 = " ++ entry es 1,
      "Polynomial: f(x) = " ++ (Poly.ofElementary es).text,
      "\n" ++ ending report],
    report⟩

/-- So many random residues from a seed. -/
def randomMessages (m : Modulus) (seed : Int) (n : Nat) : List (Residue m) :=
  (Instance.randomResidues m n (.fresh (SplitMix.ofSeed (some seed)))).1

/-- The sums with one added to that at a position. -/
def changed {m : Modulus} (sums : List (Residue m)) (i : Nat) : List (Residue m) :=
  sums.modify i (· + 1)

/-- A changed power sum. -/
def tampering : Scene :=
  let m := modulus 0x1FFFFFFFFFFFFFFF (by decide)
  let messages := randomMessages m 7 4
  let sums := powerSums messages 4
  let own := messages.headD 0
  let honest := (recovery own sums .absent 42).report
  let tampered := (recovery own (changed sums 2) .absent 42).report
  ⟨title "DEMO 2: TAMPER DETECTION" ++ unlines [
      "\nHonest sums:   " ++ honest.status.name,
      "Tampered sums: " ++ tampered.status.name ++ " (" ++ tampered.reason.getD "None" ++ ")"],
    tampered⟩

/-- Two equal messages. -/
def collision : Scene :=
  let m := modulus 97 (by decide)
  let sums := powerSums ([5, 42, 42, 90].map (Residue.ofNat m)) 4
  let f := Poly.ofElementary (symmetricOf sums)
  let finder := Finder.frobenius Settings.defaultAttempts
  let search : Search SplitMix RootMultiset := finder.rootsWithMultiplicity f
  let roots := (search.run.run (.fresh (SplitMix.ofSeed (some 1)))).1.toOption.getD .empty
  let report := (recovery (Residue.ofNat m 42) sums .absent 1).report
  ⟨title "DEMO 3: COLLIDING MESSAGES" ++ unlines [
      "\nf(x) = " ++ f.text,
      "Roots with multiplicity: " ++ roots.text,
      ending report],
    report⟩

/-- The text in a buffer, up to the first zero byte. -/
def bufferText (v : Value) : String :=
  String.ofList ((v.heldBytes.takeWhile (· ≠ 0)).map fun b => Char.ofNat b.toNat)

/-- A large prime, and buffers for the messages. -/
def largeField : Scene :=
  let m := modulus 0x7FFFFFFFFFFFFFFFFFFFFFFFFFFFFFFF (by decide)
  let messages := randomMessages m 2024 5
  let sums := powerSums messages 5
  let buffers := messages.map fun _ => Value.buffer (List.replicate m.bufferSize 0)
  let r := recovery (messages.getD 3 0) sums (.list buffers) 42
  let sorted := (messages.map (·.val)).mergeSort (· ≤ ·)
  ⟨title "DEMO 4: 127-BIT FIELD WITH OUTPUT BUFFERS" ++ unlines (
      ["\nBuffer size: " ++ toString m.bufferSize ++ " bytes (hex width "
        ++ toString (Hex.width m.value) ++ " + terminator)"]
      ++ (r.buffers.items?.getD []).map (fun b => "  " ++ bufferText b)
      ++ ["Matches sorted input: " ++ truth (r.report.values = sorted)]),
    r.report⟩

/-- The scenes in order. -/
def scenes : List Scene := [tiny, tampering, collision, largeField]

/-- What stands before the scenes. -/
def opening : String :=
  unlines [
    "╔" ++ rule '═' 68 ++ "╗",
    "║" ++ rule ' ' 18 ++ "POWER-SUM SOLVER DEMONSTRATION" ++ rule ' ' 20 ++ "║",
    "╚" ++ rule '═' 68 ++ "╝",
    "\nEach peer publishes nothing but power sums of the messages.",
    "Newton's identities turn them into a polynomial whose roots",
    "are exactly the messages, with multiplicity.",
    "\n" ++ rule '─' 70]

/-- What stands behind each scene. -/
def divider : String := "\n" ++ rule '─' 70 ++ "\n"

/-- The question after a scene, which any line answers. -/
def question : String := "Press Enter to continue to next demo..."

/-- What stands behind the scenes. -/
def closing : String :=
  unlines [
    "\n" ++ rule '═' 70,
    "DEMOS COMPLETE",
    rule '═' 70,
    "\nKey takeaways:",
    "  1. n power sums determine the n messages when n < p",
    "  2. The sums are consistent iff f(x) splits into linear factors",
    "  3. Colliding messages show up as repeated roots",
    "  4. Any tampering breaks the split or drops the caller's message"]

/-- The walkthrough without questions. -/
def text : String := opening ++ String.join (scenes.map fun s => s.text ++ divider) ++ closing

/-- The texts of a walkthrough with questions: each ends in a question but the last. -/
def pages : List String :=
  match scenes with
  | [] => [opening ++ closing]
  | first :: rest =>
    (opening ++ first.text ++ divider ++ question)
      :: rest.map (fun s => s.text ++ divider ++ question) ++ [closing]

/-- What is left of an input after its first line, if there is one. -/
def dropLine (input : List Char) : Option (List Char) :=
  if input.isEmpty then none else some ((input.dropWhile (· ≠ '\n')).drop 1)

/-- The pages that are shown when the questions are answered by the lines of an input, and whether
the input lasted to the end. -/
def turnPages : List String → List Char → String × Bool
  | [], _ => ("", true)
  | [page], _ => (page, true)
  | page :: next :: rest, input =>
    match dropLine input with
    | none => (page, false)
    | some input =>
      let (shown, finished) := turnPages (next :: rest) input
      (page ++ shown, finished)

/-- The walkthrough with questions that the lines of an input answer. -/
def answered (input : String) : String × Bool := turnPages pages input.toList

end MultisetRecovery.Walkthrough

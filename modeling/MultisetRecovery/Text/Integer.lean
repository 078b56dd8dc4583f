import MultisetRecovery.Text.Blank
import MultisetRecovery.Text.Digit

/-!
# Reading a decimal integer

The integers that options take: white space around them, one sign, decimal digits of any script, and
single underscores between digits. The information separators do not count as white space here.
-/

namespace MultisetRecovery.Text

/-- Whether a character may stand around an integer. -/
def isNumberBlank (c : Char) : Bool := isBlank c && !(0x1c ≤ c.toNat && c.toNat ≤ 0x1f)

/-- The number that the digits continue, from the value of those before them. -/
def naturalFrom (acc : Nat) : List Char → Option Nat
  | [] => some acc
  | '_' :: c :: cs => do naturalFrom (10 * acc + (← digit? c)) cs
  | c :: cs => do naturalFrom (10 * acc + (← digit? c)) cs

/-- The number that digits and underscores stand for. -/
def natural? : List Char → Option Nat
  | [] => none
  | c :: cs => do naturalFrom (← digit? c) cs

/-- The integer that a text stands for. -/
def integer? (s : String) : Option Int :=
  match stripBy isNumberBlank s.toList with
  | '-' :: cs => (natural? cs).map (-·)
  | '+' :: cs => (natural? cs).map (·)
  | cs => (natural? cs).map (·)

end MultisetRecovery.Text

import MultisetRecovery.Recovery
import MultisetRecovery.Text.Blank

/-!
# The text of an instance

One value to a line: the modulus, the caller's own message, then the power sums. White space around
a value does not count, and neither do blank lines and lines that begin with a number sign. The
values themselves are not looked at here.
-/

namespace MultisetRecovery

/-- The values of an instance as they are written. -/
structure InstanceText where
  /-- The modulus. -/
  modulus : String
  /-- The caller's own message. -/
  message : String
  /-- The power sums. -/
  sums : List String
deriving DecidableEq

namespace InstanceText

/-- A line is a comment if it begins with a number sign. -/
def isComment (line : List Char) : Bool := line.head? = some '#'

/-- The values of a text, in order. -/
def values (text : List Char) : List (List Char) :=
  ((Text.lines text).map Text.strip).filter fun l => !l.isEmpty && !isComment l

/-- The instance of a text. With fewer than three values there is none, and the result is their
number. -/
def parse (s : String) : Except Nat InstanceText :=
  match values s.toList with
  | modulus :: message :: sum :: sums =>
    .ok ⟨String.ofList modulus, String.ofList message, (sum :: sums).map String.ofList⟩
  | vs => .error vs.length

/-- The text that reports too small a number of values. -/
def tooFewMessage (n : Nat) : String :=
  "expected a prime, a message and power sums, got " ++ toString n ++ " values"

/-- The request that an instance poses. -/
def request (t : InstanceText) : Request := .ofTexts t.modulus t.message t.sums

end InstanceText

end MultisetRecovery

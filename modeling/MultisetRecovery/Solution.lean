import MultisetRecovery.Failure
import MultisetRecovery.Request.Validation
import MultisetRecovery.RootMultiset

/-!
# Writing out a solution

The messages of a root multiset, in ascending order and hexadecimal digits, as texts and in buffers.
A buffer gets the digits and a zero byte; what it holds behind them stays.

Buffers are written one after the other, and each is checked only when its turn comes. Where the
checks of a request have gone before, none of these fails.
-/

namespace MultisetRecovery

/-- The messages of a root multiset, which have to number `n` and hold the caller's own. -/
def RootMultiset.assemble (roots : RootMultiset) (own n : Int) : Except NoSolution (List String) :=
  let values := roots.flatten
  if (values.length : Int) ≠ n then .error (.messageCount n values.length)
  else if roots.count own < 1 then .error (.ownMessageMissing own)
  else .ok (values.map Hex.encodeInt)

/-- Why messages cannot be written to buffers. -/
inductive BufferError where
  /-- There are not as many buffers as messages. -/
  | count (expected found : Nat)
  /-- A buffer has too little room. -/
  | tooShort (holds needed : Nat)
  /-- A message holds characters outside ASCII, of which the first run begins with `first` and
  reaches over `length` positions. -/
  | notAscii (first : Char) (position length : Nat)
deriving DecidableEq

namespace BufferError

/-- The escape of a character outside ASCII by its code. -/
def escape (c : Char) : String := String.ofList (Text.escapeCode c)

/-- The text that reports an error. -/
def message : BufferError → String
  | count expected found =>
    "expected " ++ toString expected ++ " output buffers, got " ++ toString found
  | tooShort holds needed =>
    "output buffer holds " ++ toString holds ++ " bytes, " ++ toString needed ++ " required"
  | notAscii c i n =>
    let place :=
      if n = 1 then "character '" ++ escape c ++ "' in position " ++ toString i
      else "characters in position " ++ toString i ++ "-" ++ toString (i + n - 1)
    "'ascii' codec can't encode " ++ place ++ ": ordinal not in range(128)"

end BufferError

namespace Buffers

/-- Whether a character is one of ASCII. -/
def isAscii (c : Char) : Bool := c.toNat < 128

/-- The bytes of a text. -/
def encodeAscii (s : String) : Except BufferError (List UInt8) :=
  let cs := s.toList
  match cs.dropWhile isAscii with
  | [] => .ok (cs.map fun c => UInt8.ofNat c.toNat)
  | c :: rest =>
    let run := (c :: rest).takeWhile (!isAscii ·)
    .error (.notAscii c (cs.takeWhile isAscii).length run.length)

/-- A buffer with its first bytes replaced. More bytes than it holds make it longer. -/
def overwrite (data held : List UInt8) : List UInt8 := data ++ held.drop data.length

/-- The buffers after the messages are written to them, up to the first that cannot be. -/
def writeFrom (needed : Nat) :
    List String → List (List UInt8) → List (List UInt8) × Option BufferError
  | message :: messages, held :: rest =>
    if held.length < needed then (held :: rest, some (.tooShort held.length needed))
    else
      match encodeAscii message with
      | .error e => (held :: rest, some e)
      | .ok data =>
        let (written, e) := writeFrom needed messages rest
        (overwrite (data ++ [0]) held :: written, e)
  | _, rest => (rest, none)

/-- The buffers after the messages are written to them, and what went wrong. -/
def write (m : Modulus) (messages : List String) (held : List (List UInt8)) :
    List (List UInt8) × Option BufferError :=
  if held.length ≠ messages.length then (held, some (.count messages.length held.length))
  else writeFrom m.bufferSize messages held

end Buffers

namespace Value

/-- The bytes that a value holds for writing. -/
def heldBytes : Value → List UInt8
  | buffer data => data
  | _ => []

/-- The messages written to the buffers of a request, and what went wrong. Without buffers nothing
is written. -/
def writeBuffers (m : Modulus) (messages : List String) (v : Value) : Value × Option BufferError :=
  match v with
  | list vs =>
    let (written, e) := Buffers.write m messages (vs.map heldBytes)
    (list (written.map buffer), e)
  | tuple vs =>
    let (written, e) := Buffers.write m messages (vs.map heldBytes)
    (tuple (written.map buffer), e)
  | _ => (v, none)

end Value

end MultisetRecovery

import MultisetRecovery.Poly.Basic
import MultisetRecovery.Request.Value
import MultisetRecovery.Text.Quoted

/-!
# Checking a request

A request is well-formed if it has two power sums at least, a modulus of at least their number, a
message and sums that are least representatives modulo it, and, if it brings buffers for the
messages, one for each that has room for the longest message and a zero byte behind it. What is
well-formed becomes a `Problem`, in which all of this holds by type.

Of several faults the first in the order of the checks is reported: the sums as a sequence, their
number, the modulus, the caller's message, each sum in order, the buffers.
-/

namespace MultisetRecovery

/-- What a caller asks. -/
structure Request where
  /-- The modulus. -/
  modulus : Value
  /-- The caller's own message. -/
  message : Value
  /-- The power sums. -/
  sums : Value
  /-- The number of messages, if it is given besides. -/
  count : Value
  /-- Buffers to write the messages to, if there are any. -/
  buffers : Value

/-- What is wrong with a request. -/
inductive InputError where
  /-- The named number is of a kind that holds no numbers. -/
  | notNumber (name kind : String)
  /-- The named number is below zero. -/
  | negative (name : String) (v : Int)
  /-- The named number is given by bytes outside ASCII. -/
  | notAscii (name : String)
  /-- The named number is given by a text that does not consist of hexadecimal digits. -/
  | notHex (name text : String)
  /-- The named number is no least representative. -/
  | notBelow (name : String) (v modulus : Nat)
  /-- There is one text in place of the sums. -/
  | sumsAreText
  /-- The sums are no sequence. -/
  | sumsNotSequence (kind : String)
  /-- The number of messages is no integer. -/
  | countNotInteger (kind : String)
  /-- The number of messages is below two. -/
  | countTooSmall (n : Int)
  /-- There are not as many sums as messages. -/
  | sumCount (expected : Int) (found : Nat)
  /-- The modulus is below two. -/
  | modulusTooSmall (v : Nat)
  /-- There are more messages than residues. -/
  | countExceedsModulus (n modulus : Nat)
  /-- The buffers are no sequence. -/
  | buffersNotSequence (kind : String)
  /-- There are not as many buffers as messages. -/
  | bufferCount (expected found : Nat)
  /-- A buffer is no bytes that can be changed. -/
  | notBuffer (position : Nat) (kind : String)
  /-- A buffer has too little room. -/
  | bufferTooShort (position holds needed : Nat)
deriving DecidableEq

namespace InputError

/-- The text that reports an error. -/
def message : InputError → String
  | notNumber name kind => name ++ ": expected hexadecimal text, got " ++ kind
  | negative name v => name ++ ": negative value " ++ toString v
  | notAscii name => name ++ ": not ASCII text"
  | notHex name text => name ++ ": " ++ Text.quoted text ++ " is not a hexadecimal number"
  | notBelow name v p =>
    name ++ ": " ++ Hex.encodeMarked v ++ " is not below the prime " ++ Hex.encodeMarked p
  | sumsAreText => "sums must be a sequence of values, not a single string"
  | sumsNotSequence kind => "sums must be a sequence of values, got " ++ kind
  | countNotInteger kind => "n must be an integer, got " ++ kind
  | countTooSmall n => "n must be at least 2, got " ++ toString n
  | sumCount expected found =>
    "expected " ++ toString expected ++ " power sums, got " ++ toString found
  | modulusTooSmall v => "prime must be at least 2, got " ++ toString v
  | countExceedsModulus n p => "n = " ++ toString n ++ " exceeds the prime " ++ toString p
  | buffersNotSequence kind => "out_messages must be a sequence of buffers, got " ++ kind
  | bufferCount expected found =>
    "expected " ++ toString expected ++ " output buffers, got " ++ toString found
  | notBuffer i kind =>
    "out_messages[" ++ toString i ++ "] must be a bytearray, got " ++ kind
  | bufferTooShort i holds needed =>
    "out_messages[" ++ toString i ++ "] holds " ++ toString holds ++ " bytes, " ++ toString needed
      ++ " required"

end InputError

/-- A well-formed request. -/
structure Problem where
  /-- The modulus. -/
  modulus : Modulus
  /-- The caller's own message. -/
  message : Residue modulus
  /-- The power sums, from the first on. -/
  sums : List (Residue modulus)

/-- The bytes a buffer has to hold: the digits of the longest message and a zero byte. -/
def Modulus.bufferSize (m : Modulus) : Nat := Hex.width m.value + 1

namespace Value

/-- The number that a text of hexadecimal digits stands for. -/
def readText (name s : String) : Except InputError Nat :=
  match Hex.decode s with
  | some v => .ok v
  | none => .error (.notHex name s)

/-- The number that bytes stand for. A zero byte ends them. -/
def readBytes (name : String) (data : List UInt8) : Except InputError Nat :=
  let data := data.takeWhile (· ≠ 0)
  if data.all (· < 128) then readText name (String.ofList (data.map fun b => Char.ofNat b.toNat))
  else .error (.notAscii name)

/-- The number that a value stands for: an integer as it is, a text or bytes by hexadecimal digits.
-/
def readNumber (name : String) (v : Value) : Except InputError Nat :=
  match v with
  | integer n => if n < 0 then .error (.negative name n) else .ok n.toNat
  | text s => readText name s
  | bytes data | buffer data => readBytes name data
  | _ => .error (.notNumber name v.kind)

/-- The residue that a value stands for by its least representative. -/
def readResidue (m : Modulus) (name : String) (v : Value) : Except InputError (Residue m) := do
  let n ← v.readNumber name
  if h : n < m.value then return ⟨n, h⟩
  else throw (.notBelow name n m.value)

/-- The residues that the values of a list stand for; the first of them is number `i`. -/
def readSums (m : Modulus) : Nat → List Value → Except InputError (List (Residue m))
  | _, [] => .ok []
  | i, v :: vs => do
    let r ← v.readResidue m ("sums[" ++ toString i ++ "]")
    return r :: (← readSums m (i + 1) vs)

/-- The sequence of the sums. -/
def readSequence (v : Value) : Except InputError (List Value) :=
  if v.isText then .error .sumsAreText
  else
    match v.items? with
    | some vs => .ok vs
    | none => .error (.sumsNotSequence v.kind)

/-- The number of messages: that of the sums unless it is given. -/
def readCount (v : Value) (sums : Nat) : Except InputError Int :=
  match v with
  | absent => .ok sums
  | integer n => .ok n
  | _ => .error (.countNotInteger v.kind)

/-- A buffer that has room for so many bytes. -/
def checkBuffer (needed i : Nat) (v : Value) : Except InputError Unit :=
  match v with
  | buffer data =>
    if data.length < needed then .error (.bufferTooShort i data.length needed) else .ok ()
  | _ => .error (.notBuffer i v.kind)

/-- Buffers that have room for so many bytes each; the first of them is number `i`. -/
def checkBufferList (needed : Nat) : Nat → List Value → Except InputError Unit
  | _, [] => .ok ()
  | i, v :: vs => do
    v.checkBuffer needed i
    checkBufferList needed (i + 1) vs

/-- As many buffers as messages, with room for so many bytes each, or none at all. -/
def checkBuffers (needed count : Nat) (v : Value) : Except InputError Unit :=
  match v with
  | absent => .ok ()
  | _ =>
    match v.items? with
    | none => .error (.buffersNotSequence v.kind)
    | some vs =>
      if vs.length = count then checkBufferList needed 0 vs
      else .error (.bufferCount count vs.length)

end Value

namespace Request

/-- The modulus of a request for `n` messages. -/
def readModulus (r : Request) (n : Nat) : Except InputError Modulus := do
  let p ← r.modulus.readNumber "prime"
  if h : 2 ≤ p then
    if p < n then throw (.countExceedsModulus n p)
    return ⟨p, h⟩
  else throw (.modulusTooSmall p)

/-- The problem that a well-formed request poses. -/
def validate (r : Request) : Except InputError Problem := do
  let sums ← r.sums.readSequence
  let n ← r.count.readCount sums.length
  if n < 2 then throw (.countTooSmall n)
  if (sums.length : Int) ≠ n then throw (.sumCount n sums.length)
  let m ← r.readModulus sums.length
  let message ← r.message.readResidue m "my_message"
  let values ← Value.readSums m 0 sums
  r.buffers.checkBuffers m.bufferSize sums.length
  return ⟨m, message, values⟩

end Request

end MultisetRecovery

import MultisetRecovery.Hex

/-!
# Values of a request

A request comes from outside, and each part of it may be of any kind. The kinds are told apart
because every one is answered differently: numbers are accepted as integers, as text and as bytes,
sequences as lists and tuples, buffers only where bytes can be changed.
-/

namespace MultisetRecovery

/-- A part of a request. -/
inductive Value where
  /-- A text. -/
  | text (s : String)
  /-- An integer. -/
  | integer (v : Int)
  /-- A truth value. It counts as an integer only where its kind does not matter. -/
  | truth (b : Bool)
  /-- Nothing was given. -/
  | absent
  /-- A sequence that can be changed. -/
  | list (items : List Value)
  /-- A sequence that cannot be changed. -/
  | tuple (items : List Value)
  /-- Bytes that cannot be changed. -/
  | bytes (data : List UInt8)
  /-- Bytes that can be changed. -/
  | buffer (data : List UInt8)
  /-- A floating-point number. -/
  | real
  /-- Something else. -/
  | thing

/-- The ways in which a value has no hexadecimal form. -/
inductive FormatError where
  /-- Texts and floating-point numbers have formats of their own, and this is none of them. -/
  | unknownFormat (kind : String)
  /-- The kind has no formats. -/
  | noFormats (kind : String)
deriving DecidableEq

namespace FormatError

/-- The text that reports an error. -/
def message : FormatError → String
  | unknownFormat kind => "Unknown format code 'x' for object of type '" ++ kind ++ "'"
  | noFormats kind => "unsupported format string passed to " ++ kind ++ ".__format__"

end FormatError

namespace Value

/-- The written name of a kind of value. -/
def kind : Value → String
  | text _ => "str"
  | integer _ => "int"
  | truth _ => "bool"
  | absent => "NoneType"
  | list _ => "list"
  | tuple _ => "tuple"
  | bytes _ => "bytes"
  | buffer _ => "bytearray"
  | real => "float"
  | thing => "object"

/-- The members of a sequence. -/
def items? : Value → Option (List Value)
  | list vs | tuple vs => some vs
  | _ => none

/-- Whether a value is one text, given as such or as bytes. -/
def isText : Value → Bool
  | text _ | bytes _ | buffer _ => true
  | _ => false

/-- The hexadecimal form of a number. -/
def encodeHex (v : Value) : Except FormatError String :=
  match v with
  | integer n => .ok (Hex.encodeInt n)
  | truth b => .ok (Hex.encodeInt b.toInt)
  | text _ | real => .error (.unknownFormat v.kind)
  | _ => .error (.noFormats v.kind)

end Value

end MultisetRecovery

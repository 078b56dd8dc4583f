/-!
# Hexadecimal numbers

Numbers are exchanged as bare hexadecimal digits, without a mark, a sign or padding. Writing uses
lower case and no leading zeros; reading takes either case and any number of leading zeros, and
nothing else: no sign, no mark, no blanks, no digits outside ASCII, and not the empty text.
-/

namespace MultisetRecovery.Hex

/-- The digit of a number below sixteen. -/
def digit (n : Nat) : Char :=
  if n < 10 then Char.ofNat (48 + n) else Char.ofNat (87 + n)

/-- The digits of a number, highest first, without leading zeros; zero has one digit. -/
def digits (n : Nat) : List Char :=
  if n < 16 then [digit n] else digits (n / 16) ++ [digit (n % 16)]
termination_by n

/-- The written form of a number. -/
def encode (n : Nat) : String := String.ofList (digits n)

/-- The number of digits in the written form. -/
def width (n : Nat) : Nat := (digits n).length

/-- The written form of an integer: a minus sign stands before the digits of a negative one. -/
def encodeInt (v : Int) : String := if v < 0 then "-" ++ encode v.natAbs else encode v.natAbs

/-- The written form of an integer in messages, which mark the base between sign and digits. -/
def encodeMarked (v : Int) : String :=
  (if v < 0 then "-0x" else "0x") ++ encode v.natAbs

/-- The value of a digit of either case. -/
def digit? (c : Char) : Option Nat :=
  if '0' ≤ c ∧ c ≤ '9' then some (c.toNat - 48)
  else if 'a' ≤ c ∧ c ≤ 'f' then some (c.toNat - 87)
  else if 'A' ≤ c ∧ c ≤ 'F' then some (c.toNat - 55)
  else none

/-- The number that the digits continue, from the value of those before them. -/
def decodeFrom (acc : Nat) : List Char → Option Nat
  | [] => some acc
  | c :: cs => do decodeFrom (16 * acc + (← digit? c)) cs

/-- The number that a list of digits stands for. -/
def decodeChars (cs : List Char) : Option Nat := if cs.isEmpty then none else decodeFrom 0 cs

/-- The number that a text of digits stands for. -/
def decode (s : String) : Option Nat := decodeChars s.toList

/-- The two digits of a byte. -/
def encodeByte (b : UInt8) : List Char := [digit (b.toNat / 16), digit (b.toNat % 16)]

/-- A number in lower-case digits, padded with zeros to a least width. -/
def padded (width n : Nat) : String :=
  String.ofList (List.replicate (width - (digits n).length) '0' ++ digits n)

end MultisetRecovery.Hex

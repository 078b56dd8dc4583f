import MultisetRecovery.Hex
import MultisetRecovery.Text.Printable

/-!
# Quoted text

How a message shows a text that it complains about. Single quotes stand around it, or double quotes
if it holds a single quote and no double quote. The quote that stands around it and the backslash
are escaped by a backslash; line feed, carriage return and tabulator have escapes of one letter;
other characters that are not printable are written by their code, in two, four or eight hexadecimal
digits.
-/

namespace MultisetRecovery.Text

/-- The escape of a character by its code. -/
def escapeCode (c : Char) : List Char :=
  let n := c.toNat
  let (mark, width) := if n < 0x100 then ('x', 2) else if n < 0x10000 then ('u', 4) else ('U', 8)
  '\\' :: mark :: (Hex.padded width n).toList

/-- A character inside quotes of the given kind. -/
def quoteChar (quote c : Char) : List Char :=
  if c = quote ∨ c = '\\' then ['\\', c]
  else if c = '\n' then ['\\', 'n']
  else if c = '\r' then ['\\', 'r']
  else if c = '\t' then ['\\', 't']
  else if isPrintable c then [c]
  else escapeCode c

/-- The kind of quotes that stands around a text. -/
def quoteFor (cs : List Char) : Char := if '\'' ∈ cs ∧ '"' ∉ cs then '"' else '\''

/-- A text as messages quote it. -/
def quoted (s : String) : String :=
  let quote := quoteFor s.toList
  String.ofList (quote :: s.toList.flatMap (quoteChar quote) ++ [quote])

/-- A list of texts as the program prints it. -/
def quotedList (ss : List String) : String := "[" ++ ", ".intercalate (ss.map quoted) ++ "]"

end MultisetRecovery.Text

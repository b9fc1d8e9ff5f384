/-
**Quoted text.**

How a text is shown in messages: between single quotes, or between double quotes if it holds a single
quote and no double one. Backslashes, the quote in use, tabs and line ends are escaped, and so is every
character that is not printable, by its code in two, four or eight hexadecimal digits.
-/

import XPathAnnotator.Text.CodePoints
import XPathAnnotator.Text.PrintableTable

namespace XPathAnnotator.Text

/-- Whether a character is written as it is in quoted text. -/
def isPrintable (c : Char) : Bool :=
  if c.toNat < 128 then 32 ≤ c.toNat && c.toNat < 127 else printableCodePoints.contains c

/-- The hexadecimal digits of a number, padded with zeros to a width. -/
def hexDigits (width value : Nat) : List Char :=
  let digits := Nat.toDigits 16 value
  List.replicate (width - digits.length) '0' ++ digits

/-- How one character is written in a text between quotes. -/
def quotedChar (quote c : Char) : List Char :=
  if c == quote || c == '\\' then ['\\', c]
  else if c == '\t' then ['\\', 't']
  else if c == '\n' then ['\\', 'n']
  else if c == '\r' then ['\\', 'r']
  else if isPrintable c then [c]
  else if c.toNat < 0x100 then ['\\', 'x'] ++ hexDigits 2 c.toNat
  else if c.toNat < 0x10000 then ['\\', 'u'] ++ hexDigits 4 c.toNat
  else ['\\', 'U'] ++ hexDigits 8 c.toNat

/-- The quote that a text is shown with. -/
def quoteOf (text : String) : Char :=
  let cs := text.toList
  if cs.contains '\'' && !cs.contains '"' then '"' else '\''

/-- A text as it is shown in messages. -/
def quoted (text : String) : String :=
  let quote := quoteOf text
  String.ofList (quote :: text.toList.flatMap (quotedChar quote) ++ [quote])

end XPathAnnotator.Text

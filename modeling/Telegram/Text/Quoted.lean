import Telegram.Text.Unprintable

/-!
# Quoted text

Messages quote the text they complain about. The delimiter and the backslash are escaped by a
backslash, the common controls have letters of their own, and any other character that would not show
is written by its number. `quote` puts text between double quotes and `quoteChar` a character between
single ones; neither escapes the other's delimiter.
-/

namespace Telegram.Text

/-- The number of a character between braces, as in a backslash escape. -/
def escapeNumber (c : Char) : List Char :=
  ['\\', 'u', '\x7b'] ++ Nat.toDigits 16 c.toNat ++ ['\x7d']

/-- One character inside quotes of the given kind. -/
def escape (delimiter c : Char) : List Char :=
  if c = '\x00' then ['\\', '0']
  else if c = '\t' then ['\\', 't']
  else if c = '\n' then ['\\', 'n']
  else if c = '\r' then ['\\', 'r']
  else if c = '\\' || c = delimiter then ['\\', c]
  else if isUnprintable c then escapeNumber c
  else [c]

/-- The text between double quotes. -/
def quote (text : String) : String :=
  String.ofList ('\x22' :: text.toList.flatMap (escape '\x22') ++ ['\x22'])

/-- The character between single quotes. -/
def quoteChar (c : Char) : String :=
  String.ofList ('\x27' :: escape '\x27' c ++ ['\x27'])

end Telegram.Text

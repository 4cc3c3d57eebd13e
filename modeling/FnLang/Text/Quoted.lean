/- # FnLang.Text.Quoted — texts quoted for messages.

A quoted text stands between two quotation marks and on one line.  The mark is the apostrophe,
unless the text holds an apostrophe and no double quote.  Inside, the backslash and the mark are
preceded by a backslash, line feed, carriage return and tab are written `\n`, `\r` and `\t`, and any
other unprintable character is named by two, four or eight hexadecimal digits, the fewest that hold
its code point.
-/
import FnLang.Text.Hex
import FnLang.Text.Printable

namespace FnLang.Text

/-- The apostrophe, the usual quotation mark. -/
def apostrophe : Char := '\x27'

/-- The mark a text is quoted with. -/
def quotationMark (cs : List Char) : Char :=
  if cs.contains apostrophe && !cs.contains '"' then '"' else apostrophe

/-- An unprintable character by its code point. -/
def codePointEscape (n : Nat) : List Char :=
  if n < 0x100 then '\\' :: 'x' :: hex 2 n
  else if n < 0x10000 then '\\' :: 'u' :: hex 4 n
  else '\\' :: 'U' :: hex 8 n

/-- A character as it is written between two marks `mark`. -/
def quotedChar (mark c : Char) : List Char :=
  if c = mark ∨ c = '\\' then ['\\', c]
  else if c = '\n' then ['\\', 'n']
  else if c = '\r' then ['\\', 'r']
  else if c = '\t' then ['\\', 't']
  else if isPrintable c then [c]
  else codePointEscape c.toNat

/-- A text between quotation marks. -/
def quoted (s : String) : String :=
  let mark := quotationMark s.toList
  String.ofList (mark :: s.toList.flatMap (quotedChar mark) ++ [mark])

end FnLang.Text

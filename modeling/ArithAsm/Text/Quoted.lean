import ArithAsm.Text.Printable

/-!
# Quoted texts

A text is shown in a message between two quotation marks, with an escape for every character that
would end it or could not be seen.  The marks are single, unless the text has a single mark and no
double one.
-/

namespace ArithAsm.Text

/-- The mark that goes around a text. -/
def quotationMark (text : List Char) : Char :=
  if '\'' ∈ text ∧ '"' ∉ text then '"' else '\''

/-- The last `width` hexadecimal digits of a number. -/
def hexDigits : Nat → Nat → List Char
  | 0, _ => []
  | width + 1, n => hexDigits width (n / 16) ++ [Nat.digitChar (n % 16)]

/-- A code point in two, four or eight hexadecimal digits, the fewest that hold it. -/
def hexEscape (n : Nat) : List Char :=
  if n < 0x100 then '\\' :: 'x' :: hexDigits 2 n
  else if n < 0x10000 then '\\' :: 'u' :: hexDigits 4 n
  else '\\' :: 'U' :: hexDigits 8 n

/-- A character inside a text that stands between two of `mark`. -/
def escaped (mark c : Char) : List Char :=
  if c = mark ∨ c = '\\' then ['\\', c]
  else if c = '\n' then ['\\', 'n']
  else if c = '\r' then ['\\', 'r']
  else if c = '\t' then ['\\', 't']
  else if isPrintable c then [c]
  else hexEscape c.toNat

/-- **A text between quotation marks.** -/
def quoted (text : String) : String :=
  let mark := quotationMark text.toList
  String.ofList (mark :: text.toList.flatMap (escaped mark) ++ [mark])

end ArithAsm.Text

import ArithAsm.Text.Decimal

/-!
# Tokens

A token is a number, one of the reserved characters `+ - * / ( )`, or the end of the input.  It
keeps the text it was read from and the number of characters before that text.
-/

namespace ArithAsm

/-- What a token is. -/
inductive TokenKind where
  | number (value : Int)
  | reserved
  | endOfInput
  deriving DecidableEq, Repr

/-- A token with its text and the place of that text in the source, counted in characters.  A token
that was not read from a source may give any number as its place. -/
structure Token where
  kind : TokenKind
  text : String
  position : Int
  deriving DecidableEq, Repr

namespace Token

/-- The token that ends the tokens of a source of `length` characters. -/
def stop (length : Nat) : Token :=
  ⟨.endOfInput, "", length⟩

/-- A reserved token of one character. -/
def ofSymbol (c : Char) (position : Nat) : Token :=
  ⟨.reserved, String.singleton c, position⟩

/-- The token is the end of the input. -/
def isStop (t : Token) : Bool :=
  t.kind = .endOfInput

/-- The token is the reserved token with the given text. -/
def isReserved (t : Token) (text : String) : Bool :=
  t.kind = .reserved && t.text = text

/-- The token on a line of its own, as a dump of the tokens shows it. -/
def label (t : Token) : Except PrintError String :=
  match t.kind with
  | .number value => (Text.decimal value).map ("NUM " ++ ·)
  | .reserved => .ok ("RESERVED '" ++ t.text ++ "'")
  | .endOfInput => .ok "EOF"

/-- The token as an error message names it. -/
def description (t : Token) : String :=
  if t.isStop then "end of input" else "'" ++ t.text ++ "'"

theorem isReserved_iff {t : Token} {text : String} :
    t.isReserved text = true ↔ t.kind = .reserved ∧ t.text = text := by
  simp [isReserved]

theorem isStop_of_isReserved {t : Token} {text : String} (h : t.isReserved text = true) :
    t.isStop = false := by
  simp [isStop, (isReserved_iff.mp h).1]

end Token

end ArithAsm

import ArithAsm.Operator
import ArithAsm.Token

/-!
# Reading the tokens of a source

The source is read from left to right in one pass.  Layout is skipped, a longest run of the digits
0 to 9 is one number, an operator or a parenthesis is one reserved token, and the first thing that
is none of these ends the pass with a `LexError`.  `tokenize` gives the tokens of a whole source;
the last of them is always the end of the input.
-/

namespace ArithAsm

/-- Why a source has no tokens. -/
inductive LexError where
  /-- A character that starts no token, with the bytes and the characters before it. -/
  | illegalCharacter (c : Char) (byteOffset position : Nat)
  /-- A literal above the largest word. -/
  | outOfRange (text : String) (position : Nat)
  /-- A literal with too many digits to be converted at all. -/
  | tooManyDigits (digits : Nat)
  deriving DecidableEq, Repr

namespace LexError

/-- The wording of the error. -/
def message : LexError → String
  | illegalCharacter c byteOffset _ =>
    "illegal character '" ++ String.singleton c ++ "' at byte offset " ++ toString byteOffset
  | outOfRange text _ => "integer literal out of range: " ++ text
  | tooManyDigits digits =>
    "Exceeds the limit (4300 digits) for integer string conversion: value has "
      ++ toString digits
      ++ " digits; use sys.set_int_max_str_digits() to increase the limit"

/-- The character of the source the error points at, if it points at one. -/
def position? : LexError → Option Nat
  | illegalCharacter _ _ position => some position
  | outOfRange _ position => some position
  | tooManyDigits _ => none

end LexError

namespace Token

/-- The largest value of a literal, which is the largest word, `2^63 - 1`. -/
def maxLiteral : Nat :=
  0x7FFFFFFFFFFFFFFF

/-- The largest number of digits of a literal, leading zeros included. -/
def maxDigits : Nat :=
  Text.maxDigits

/-- The characters between tokens: space, tab, line feed, carriage return, form feed and vertical
tab. -/
def layout : List Char :=
  [' ', '\t', '\n', '\r', '\x0c', '\x0b']

/-- A character that is a token by itself: an operator or a parenthesis. -/
def isSymbol (c : Char) : Bool :=
  c = '(' || c = ')' || (Operator.ofSymbol? c).isSome

/-- How much of a source has been read. -/
structure Place where
  chars : Nat
  bytes : Nat
  deriving DecidableEq, Repr

namespace Place

/-- The start of a source. -/
def start : Place :=
  ⟨0, 0⟩

/-- The place after one more character. -/
def next (place : Place) (c : Char) : Place :=
  ⟨place.chars + 1, place.bytes + c.utf8Size⟩

/-- The place after some more characters. -/
def skip (place : Place) (cs : List Char) : Place :=
  cs.foldl next place

@[simp] theorem chars_next (place : Place) (c : Char) :
    (place.next c).chars = place.chars + 1 :=
  rfl

@[simp] theorem chars_skip (place : Place) (cs : List Char) :
    (place.skip cs).chars = place.chars + cs.length := by
  induction cs generalizing place with
  | nil => rfl
  | cons c cs ih =>
    rw [List.length_cons, skip, List.foldl_cons, ← skip, ih, chars_next]
    omega

end Place

/-- The number a run of digits at `position` denotes.  The number of digits is looked at before the
value. -/
def literal (run : List Char) (position : Nat) : Except LexError Token :=
  if run.length > maxDigits then .error (.tooManyDigits run.length)
  else
    let value := Nat.ofDigitChars 10 run 0
    if value > maxLiteral then .error (.outOfRange (String.ofList run) position)
    else .ok ⟨.number value, String.ofList run, position⟩

/-- The tokens of the characters that are left, after the tokens that have been `read`, the last of
them first. -/
def scan (place : Place) (read : List Token) : List Char → Except LexError (List Token)
  | [] => .ok (stop place.chars :: read).reverse
  | c :: rest =>
    if c ∈ layout then scan (place.next c) read rest
    else if c.isDigit then
      let run := c :: rest.takeWhile Char.isDigit
      match literal run place.chars with
      | .error e => .error e
      | .ok token => scan (place.skip run) (token :: read) (rest.dropWhile Char.isDigit)
    else if isSymbol c then scan (place.next c) (ofSymbol c place.chars :: read) rest
    else .error (.illegalCharacter c place.bytes place.chars)
termination_by cs => cs.length
decreasing_by
  · simp
  · exact Nat.lt_succ_of_le (List.dropWhile_sublist _).length_le
  · simp

theorem getLast?_scan {place : Place} {read ts : List Token} {cs : List Char}
    (h : scan place read cs = .ok ts) : ts.getLast? = some (stop (place.chars + cs.length)) := by
  induction place, read, cs using scan.induct with
  | case1 place read =>
    rw [scan] at h
    rw [← Except.ok.inj h]
    simp
  | case2 place read c rest hc ih =>
    rw [scan, if_pos hc] at h
    rw [ih h, List.length_cons, Place.chars_next]
    congr 2
    omega
  | case3 place read c rest hc hd run e he =>
    simp [scan, hc, hd, run, he] at h
  | case4 place read c rest hc hd run token ht ih =>
    simp only [scan, hc, hd, run, ht, if_false, if_true] at h
    have hlength := congrArg List.length
      (List.takeWhile_append_dropWhile (p := Char.isDigit) (l := rest))
    rw [List.length_append] at hlength
    rw [ih h, Place.chars_skip]
    simp only [run, List.length_cons]
    congr 2
    omega
  | case5 place read c rest hc hd hs ih =>
    rw [scan, if_neg hc, if_neg hd, if_pos hs] at h
    rw [ih h, List.length_cons, Place.chars_next]
    congr 2
    omega
  | case6 place read c rest hc hd hs =>
    simp [scan, hc, hd, hs] at h

end Token

/-- **The tokens of a source,** ended by the end of the input. -/
def tokenize (source : String) : Except LexError (List Token) :=
  Token.scan .start [] source.toList

theorem getLast?_of_tokenize {source : String} {ts : List Token} (h : tokenize source = .ok ts) :
    ts.getLast? = some (.stop source.length) := by
  rw [Token.getLast?_scan h, String.length_toList]
  simp only [Token.Place.start, Nat.zero_add]

end ArithAsm

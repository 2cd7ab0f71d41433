import Pebble.Text.Blank
import Pebble.Text.Digit

/-!
Reading integers. The value is exact whatever its size, but a numeral may not have more digits
than `maxDigits`. The digits may be those of any script, and the reader takes a plain numeral as
well as one with blanks around it or with its digits in groups.
-/

namespace Pebble.Numeral

/-- What is wrong with a numeral: an integer has too many digits, a text is no integer, a text is
no decimal, or the exponent of a decimal is out of range. -/
inductive Fault where
  | tooLong (digits : Nat)
  | notInteger (numeral : Text)
  | notDecimal
  | outOfRange
  deriving DecidableEq, Repr

def maxDigits : Nat := 4300

def splitSign : Text → Bool × Text
  | '-' :: rest => (true, rest)
  | '+' :: rest => (false, rest)
  | rest => (false, rest)

def value (digits : Text) : Nat := Nat.ofDigitChars 10 digits 0

def signed (negative : Bool) (n : Nat) : Int := if negative then -n else n

/-- Whether a character may stand around an integer: a blank that is no control separator. -/
def isPadding (c : Char) : Bool := Text.isBlank c && !Text.isControlSeparator c

def isPart (c : Char) : Bool := c.isDigit || c = '_'

/-- The digits of an integer without the underscores. An underscore must stand between two
digits. -/
def digits? : Text → Option Text
  | [] => none
  | [c] => if c.isDigit then some [c] else none
  | c :: '_' :: rest => if c.isDigit then (digits? rest).map (c :: ·) else none
  | c :: rest => if c.isDigit then (digits? rest).map (c :: ·) else none

/-- Reads an integer: an optional sign and digits. The sign does not count as a digit, zeros in
front do. Too many digits are found before what may be wrong behind them. -/
def readInteger (text : Text) : Except Fault Int :=
  let (negative, body) := splitSign ((text.dropWhile isPadding).map Text.plainDigit)
  match digits? (body.takeWhile isPart) with
  | none => .error (.notInteger text)
  | some digits =>
    if maxDigits < digits.length then .error (.tooLong digits.length)
    else if (body.dropWhile isPart).all isPadding then .ok (signed negative (value digits))
    else .error (.notInteger text)

theorem digits?_of_all {text : Text} (hne : text ≠ []) (h : text.all Char.isDigit) :
    digits? text = some text := by
  fun_induction digits? text <;> simp_all

end Pebble.Numeral

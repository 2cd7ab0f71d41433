import Pebble.Number.Numeral

/-!
Decimal numbers that keep the digits they are written with: `1.5` and `1.50` have the same value
and are different decimals. Beside the finite ones there are the two infinities and those that are
no number.
-/

namespace Pebble

/-- A decimal. A finite one is its sign, its coefficient and the power of ten that scales it; zero
has a sign too. What is no number is quiet or signaling, and carries a payload unless that is
zero. -/
inductive Decimal where
  | finite (negative : Bool) (coefficient : Nat) (exponent : Int)
  | infinite (negative : Bool)
  | nan (negative signaling : Bool) (payload : Nat)
  deriving DecidableEq, Repr

namespace Decimal

/-- Reads the exponent part of a decimal: the letter `E` and an integer. An absent one is zero. -/
def readExponent? : Text → Option Int
  | [] => some 0
  | letter :: rest => do
    guard (letter = 'E' ∨ letter = 'e')
    let (negative, digits) := Numeral.splitSign rest
    guard (digits ≠ [] ∧ digits.all Char.isDigit)
    return Numeral.signed negative (Numeral.value digits)

/-- Reads a finite decimal after its sign: digits, optionally with a point before, between or
behind them, and optionally an exponent. Each digit after the point lowers the exponent by one. -/
def readFinite? (negative : Bool) (text : Text) : Option Decimal := do
  let whole := text.takeWhile Char.isDigit
  let (fraction, rest) := match text.dropWhile Char.isDigit with
    | '.' :: more => (more.takeWhile Char.isDigit, more.dropWhile Char.isDigit)
    | rest => ([], rest)
  guard (whole ++ fraction ≠ [])
  let exponent ← readExponent? rest
  return finite negative (Numeral.value (whole ++ fraction)) (exponent - fraction.length)

/-- Reads the name of a decimal that is not finite, in small letters. Digits after the name of what
is no number are its payload. -/
def readName? (negative : Bool) (text : Text) : Option Decimal :=
  if text = "inf".toList ∨ text = "infinity".toList then some (infinite negative)
  else
    match text with
    | 'n' :: 'a' :: 'n' :: digits => payload? false digits
    | 's' :: 'n' :: 'a' :: 'n' :: digits => payload? true digits
    | _ => none
where
  /-- What is no number, with its payload. -/
  payload? (signaling : Bool) (digits : Text) : Option Decimal :=
    if digits.all Char.isDigit then some (nan negative signaling (Numeral.value digits)) else none

def minExponent : Int := -1999999999999999997

/-- The greatest power of ten that the first digit of a decimal can stand for. -/
def maxLeading : Int := 999999999999999999

def inRange : Decimal → Bool
  | finite _ coefficient exponent =>
    minExponent ≤ exponent && exponent + (Text.ofNat coefficient).length - 1 ≤ maxLeading
  | infinite _ | nan _ _ _ => true

/-- A numeral in its plain form: without the blanks around it and without underscores, and with
the digits of ASCII. -/
def plain (text : Text) : Text :=
  ((Text.strip Text.isBlank text).filter (· ≠ '_')).map Text.plainDigit

/-- Reads a decimal: an optional sign, and a finite decimal or a name in letters of either case. -/
def read (text : Text) : Except Numeral.Fault Decimal :=
  let (negative, body) := Numeral.splitSign (plain text)
  match readFinite? negative body <|> readName? negative (body.map Char.toLower) with
  | none => .error .notDecimal
  | some d => if d.inRange then .ok d else .error .outOfRange

/-- The coefficient's digits with the point after the first `point` of them. Zeros fill what the
digits do not reach, on either side. -/
def pointed (digits : Text) (point : Int) : Text :=
  if point ≤ 0 then '0' :: '.' :: (List.replicate (-point).toNat '0' ++ digits)
  else if digits.length ≤ point then
    digits ++ List.replicate (point - digits.length).toNat '0'
  else digits.take point.toNat ++ '.' :: digits.drop point.toNat

/-- An exponent with its sign, after the letter `E`; nothing for zero. -/
def exponentPart (exponent : Int) : Text :=
  if exponent = 0 then []
  else 'E' :: (if 0 ≤ exponent then '+' :: Text.ofInt exponent else Text.ofInt exponent)

/-- Writes a coefficient and an exponent with all digits. Plain notation is used unless the
exponent is positive or more than five zeros would follow the point; then the point stands after
the first digit and an exponent follows. -/
def finiteText (coefficient : Nat) (exponent : Int) : Text :=
  let digits := Text.ofNat coefficient
  let leading := exponent + digits.length
  let point := if exponent ≤ 0 ∧ -6 < leading then leading else 1
  pointed digits point ++ exponentPart (leading - point)

def sign (negative : Bool) : Text := if negative then ['-'] else []

def toText : Decimal → Text
  | finite negative coefficient exponent => sign negative ++ finiteText coefficient exponent
  | infinite negative => sign negative ++ "Infinity".toList
  | nan negative signaling payload =>
    sign negative ++ (if signaling then ['s'] else []) ++ "NaN".toList ++
      (if payload = 0 then [] else Text.ofNat payload)

end Decimal

end Pebble

import Pebble.Text.Escape
import Pebble.Token.Basic
import Pebble.Token.Fault

/-!
Splitting a text into tokens.

Each kind of token has a rule, which reads the text from the token's first character on and tells
how long the token is. `Scan.token` chooses the rule by the first character, and `scan` goes
through a whole text: blanks separate tokens and belong to none, and the first fault ends the scan.
-/

namespace Pebble

namespace Scan

/-- What a rule makes of a text: a token that covers the first `length` characters, or a fault
`place` characters after the beginning, with the first `read` characters behind it. -/
inductive Outcome where
  | token (kind : TokenKind) (length : Nat)
  | fault (cause : Fault) (place read : Nat)
  deriving DecidableEq, Repr

def isBlank (c : Char) : Bool := c = ' ' || c = '\t' || c = '\r' || c = '\n'

def isNameStart (c : Char) : Bool := c.isAlpha || c = '_'

def isNamePart (c : Char) : Bool := c.isAlpha || c.isDigit || c = '_'

def pairs : List Text :=
  ["==".toList, "!=".toList, ">=".toList, "<=".toList, "&&".toList, "||".toList]

def singles : Text := "=><+-*/!();:,.".toList

/-- The characters an operator can start with. The last two start a pair only. -/
def isOperatorStart (c : Char) : Bool := singles.contains c || c = '&' || c = '|'

def startsWithDigit (text : Text) : Bool := text.head?.any Char.isDigit

/-- An identifier, given what follows its first character. -/
def identifier (next : Text) : Outcome :=
  .token .identifier (1 + (next.takeWhile isNamePart).length)

/-- The rest of a number, after an integer part that ends `read` characters after the number's
beginning. A point must be followed by digits. -/
def fraction (read : Nat) : Text → Outcome
  | '.' :: rest =>
    if startsWithDigit rest then
      .token .decimal (read + 1 + (rest.takeWhile Char.isDigit).length)
    else .fault .missingFraction 0 (read + 1)
  | _ => .token .integer read

/-- The unsigned part of a number, `read` characters after the number's beginning. A zero is an
integer part by itself. -/
def unsigned (read : Nat) : Text → Outcome
  | '0' :: rest =>
    if startsWithDigit rest then .fault .leadingZero 0 (read + 1) else fraction (read + 1) rest
  | text =>
    if startsWithDigit text then
      fraction (read + (text.takeWhile Char.isDigit).length) (text.dropWhile Char.isDigit)
    else .fault .missingIntegerPart 0 read

def number : Text → Outcome
  | '-' :: rest => unsigned 1 rest
  | text => unsigned 0 text

/-- The end of a character literal, whose quote and content take `read` characters. -/
def closeCharacter (read : Nat) : Text → Outcome
  | [] => .fault .unterminatedCharacter 0 read
  | '\'' :: _ => .token .character (read + 1)
  | _ :: _ => .fault .crowdedCharacter 0 read

def character : Text → Outcome
  | [] => .fault .unterminatedCharacter 0 1
  | '\'' :: _ => .fault .emptyCharacter 0 1
  | ['\\'] => .fault .unterminatedCharacter 0 1
  | '\\' :: letter :: rest =>
    if Escape.isLetter letter then closeCharacter 3 rest else .fault (.unknownEscape letter) 1 1
  | _ :: rest => closeCharacter 2 rest

/-- A string literal from `read` characters after its beginning on: characters and escapes up to
the closing quote. -/
def string (read : Nat) : Text → Outcome
  | [] => .fault .unterminatedString 0 read
  | '"' :: _ => .token .string (read + 1)
  | ['\\'] => .fault .unterminatedString 0 read
  | '\\' :: letter :: rest =>
    if Escape.isLetter letter then string (read + 2) rest
    else .fault (.unknownEscape letter) read read
  | _ :: rest => string (read + 1) rest

/-- An operator or a punctuation mark; of two that fit the longer one. -/
def operator (text : Text) : Outcome :=
  if pairs.contains (text.take 2) then .token .operator 2
  else if text.head?.any singles.contains then .token .operator 1
  else .fault (.unknownOperator (text.take 1)) 0 0

/-- The token at the beginning of a text, by the rule for its first character. A minus sign belongs
to the number that follows it at once. -/
def token : Text → Outcome
  | [] => .fault (.unrecognizedCharacter []) 0 0
  | c :: next =>
    if isNameStart c then identifier next
    else if c.isDigit || (c = '-' && startsWithDigit next) then number (c :: next)
    else if c = '\'' then character next
    else if c = '"' then string 1 next
    else if isOperatorStart c then operator (c :: next)
    else .fault (.unrecognizedCharacter [c]) 0 0

end Scan

/-- How far a scan came: the tokens it found, how many characters are behind it, and the report of
what ended it before the text did. -/
structure Scanned where
  tokens : List Token
  read : Nat
  report : Option Report
  deriving DecidableEq, Repr

/-- Splits a text that begins at an offset into tokens, up to the first fault. -/
def scan (offset : Int) : Text → Scanned
  | [] => ⟨[], 0, none⟩
  | c :: next =>
    if Scan.isBlank c then
      let found := scan (offset + 1) next
      { found with read := found.read + 1 }
    else
      match Scan.token (c :: next) with
      | .fault cause place read => ⟨[], read, some (cause.report (offset + place))⟩
      | .token kind length =>
        let found := scan (offset + length) (next.drop (length - 1))
        { found with
          tokens := ⟨kind, (c :: next).take length, offset⟩ :: found.tokens
          read := found.read + length }
termination_by text => text.length
decreasing_by all_goals grind

/-- The tokens of a text, or the report of its first fault. -/
def lex (text : Text) : Except Report (List Token) :=
  match (scan 0 text).report with
  | some report => .error report
  | none => .ok (scan 0 text).tokens

end Pebble

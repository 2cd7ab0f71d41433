import Pebble.Report
import Pebble.Text.Quoted

/-!
Faults: why a text cannot be split into tokens.
-/

namespace Pebble

/-- The causes for which the scan stops. `unrecognizedCharacter` and `unknownOperator` hold what
was found, which is nothing at the end of the text. -/
inductive Fault where
  | unrecognizedCharacter (found : Text)
  | leadingZero
  | missingIntegerPart
  | missingFraction
  | unterminatedCharacter
  | emptyCharacter
  | crowdedCharacter
  | unterminatedString
  | unknownEscape (letter : Char)
  | unknownOperator (found : Text)
  deriving DecidableEq, Repr

namespace Fault

def kind : Fault → FaultKind
  | unrecognizedCharacter _ => .unrecognizedCharacter
  | leadingZero | missingIntegerPart | missingFraction => .malformedNumber
  | unterminatedCharacter => .unterminatedCharacter
  | emptyCharacter | crowdedCharacter => .invalidCharacterLiteral
  | unterminatedString => .unterminatedString
  | unknownEscape _ => .invalidEscape
  | unknownOperator _ => .unknownOperator

/-- What a report adds to the kind. An unknown escape is shown as it stands in the source, other
characters in quoted form. -/
def detail : Fault → Option Text
  | unrecognizedCharacter found =>
    some ("unexpected character ".toList ++ Text.quoted found)
  | leadingZero => some "leading zero before digits".toList
  | missingIntegerPart => some "missing integer part".toList
  | missingFraction => some "expected digits after '.'".toList
  | emptyCharacter => some "empty character literal".toList
  | crowdedCharacter => some "character literal must contain exactly one character".toList
  | unknownEscape letter => some ("unknown escape sequence \\".toList ++ [letter])
  | unknownOperator found => some ("unknown operator ".toList ++ Text.quoted found)
  | unterminatedCharacter | unterminatedString => none

def report (fault : Fault) (offset : Int) : Report := ⟨.fault fault.kind, offset, fault.detail⟩

end Fault

end Pebble

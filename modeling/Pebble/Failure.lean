import Pebble.File.Path
import Pebble.Number.Numeral
import Pebble.Report

/-!
Failures: all that can keep a task from its result. Most are reports on the source; the others
lie in the task itself, in its files, or in a number that cannot be read.
-/

namespace Pebble

inductive KindFamily where
  | fault
  | complaint
  | token
  deriving DecidableEq, Repr

def KindFamily.name : KindFamily → Text
  | fault => "LexErrorKind".toList
  | complaint => "ParseErrorKind".toList
  | token => "TokenKind".toList

/-- Why a task failed. What is asked for in place of an associativity is kept as it is shown. -/
inductive Failure where
  | report (report : Report)
  | numeral (fault : Numeral.Fault)
  | unknownAssociativity (shown : Text)
  | unknownKind (family : KindFamily) (name : Text)
  | wrongExtension
  | file (fault : FileFault) (name : Text)
  | undecodable
  deriving DecidableEq, Repr

namespace Failure

/-- How much of a text that is no integer is shown. -/
def shownNumeral : Nat := 200

def numeralMessage : Numeral.Fault → Text
  | .tooLong digits =>
    "Exceeds the limit (".toList ++ Text.ofNat Numeral.maxDigits ++
      " digits) for integer string conversion: value has ".toList ++ Text.ofNat digits ++
      " digits; use sys.set_int_max_str_digits() to increase the limit".toList
  | .notInteger text =>
    "invalid literal for int() with base 10: ".toList ++ (Text.quoted text).take shownNumeral
  | .notDecimal => "[<class 'decimal.ConversionSyntax'>]".toList
  | .outOfRange => "[<class 'decimal.InvalidOperation'>]".toList

/-- What is said about a failure. A file that cannot be decoded is not described further. -/
def message? : Failure → Option Text
  | report r => some r.message
  | numeral fault => some (numeralMessage fault)
  | unknownAssociativity shown => some ("Unknown associativity: ".toList ++ shown)
  | unknownKind family name =>
    some (Text.quoted name ++ " is not a valid ".toList ++ family.name)
  | wrongExtension => some "Only .pebble files are supported.".toList
  | file fault name => some (fault.message name)
  | undecodable => none

end Failure

end Pebble

import Pebble.Grammar.Pattern
import Pebble.Number.Numeral
import Pebble.Report

/-!
Complaints: why a sequence of tokens does not fit the grammar.
-/

namespace Pebble

/-- How many expressions and blocks may be open inside one another. -/
def maxNesting : Nat := 64

/-- The causes for which a rule of the grammar stops. -/
inductive Complaint where
  | unexpectedToken (literal : Text)
  | missingSemicolon
  | missing (pattern : Pattern) (kind : ComplaintKind)
  | expectedIdentifier
  | expectedExpression
  | unclosedArguments
  | unclosedBlock (terminators : List Pattern)
  | nestingTooDeep
  deriving DecidableEq, Repr

namespace Complaint

def kind : Complaint → ComplaintKind
  | unexpectedToken _ => .unexpectedToken
  | missingSemicolon => .missingSemicolon
  | missing _ kind => kind
  | expectedIdentifier => .expectedIdentifier
  | expectedExpression => .expectedExpression
  | unclosedArguments => .unclosedArguments
  | unclosedBlock _ => .missingKeyword
  | nestingTooDeep => .nestingTooDeep

def detail : Complaint → Text
  | unexpectedToken literal => "expected LET or DEF, got ".toList ++ Text.quoted literal
  | missingSemicolon => "expected ';'".toList
  | missing pattern _ => "expected ".toList ++ pattern.shown
  | expectedIdentifier => "expected an identifier".toList
  | expectedExpression => "expected an expression".toList
  | unclosedArguments => "expected ')' to close the argument list".toList
  | unclosedBlock terminators =>
    "expected ".toList ++ List.intercalate " or ".toList (terminators.map Pattern.spelling)
  | nestingTooDeep =>
    "more than ".toList ++ Text.ofNat maxNesting ++ " nested expressions or blocks".toList

def report (complaint : Complaint) (offset : Int) : Report :=
  ⟨.complaint complaint.kind, offset, some complaint.detail⟩

end Complaint

/-- What ends a rule early: a complaint about the next token, or a numeral that has been taken and
cannot be read. -/
inductive Stop where
  | complaint (cause : Complaint)
  | numeral (fault : Numeral.Fault)
  deriving DecidableEq, Repr

end Pebble

import Pebble.Text.Basic

/-!
Reports of what is wrong with a source: a kind, the offset at which the trouble was found, and
often a detail for the reader.
-/

namespace Pebble

inductive FaultKind where
  | unrecognizedCharacter
  | malformedNumber
  | unterminatedCharacter
  | invalidCharacterLiteral
  | unterminatedString
  | invalidEscape
  | unknownOperator
  deriving DecidableEq, Repr

inductive ComplaintKind where
  | unexpectedToken
  | missingSemicolon
  | expectedExpression
  | unclosedArguments
  | expectedIdentifier
  | unclosedGroup
  | expectedParameters
  | unclosedParameters
  | missingKeyword
  | nestingTooDeep
  deriving DecidableEq, Repr

namespace FaultKind

def name : FaultKind → Text
  | unrecognizedCharacter => "UnrecognizedCharacter".toList
  | malformedNumber => "MalformedNumber".toList
  | unterminatedCharacter => "UnterminatedCharacter".toList
  | invalidCharacterLiteral => "InvalidCharacterLiteral".toList
  | unterminatedString => "UnterminatedString".toList
  | invalidEscape => "InvalidEscape".toList
  | unknownOperator => "UnknownOperator".toList

def all : List FaultKind :=
  [unrecognizedCharacter, malformedNumber, unterminatedCharacter, invalidCharacterLiteral,
    unterminatedString, invalidEscape, unknownOperator]

def ofName? (text : Text) : Option FaultKind := all.find? fun kind => kind.name == text

theorem ofName?_name (kind : FaultKind) : ofName? kind.name = some kind := by
  cases kind <;> decide

end FaultKind

namespace ComplaintKind

def name : ComplaintKind → Text
  | unexpectedToken => "UnexpectedToken".toList
  | missingSemicolon => "MissingSemicolon".toList
  | expectedExpression => "ExpectedExpression".toList
  | unclosedArguments => "UnclosedArguments".toList
  | expectedIdentifier => "ExpectedIdentifier".toList
  | unclosedGroup => "UnclosedGroup".toList
  | expectedParameters => "ExpectedParameters".toList
  | unclosedParameters => "UnclosedParameters".toList
  | missingKeyword => "MissingKeyword".toList
  | nestingTooDeep => "NestingTooDeep".toList

def all : List ComplaintKind :=
  [unexpectedToken, missingSemicolon, expectedExpression, unclosedArguments, expectedIdentifier,
    unclosedGroup, expectedParameters, unclosedParameters, missingKeyword, nestingTooDeep]

def ofName? (text : Text) : Option ComplaintKind := all.find? fun kind => kind.name == text

theorem ofName?_name (kind : ComplaintKind) : ofName? kind.name = some kind := by
  cases kind <;> decide

end ComplaintKind

/-- The kind of a report says which stage makes it: the scan of the text, or the grammar. -/
inductive ReportKind where
  | fault (kind : FaultKind)
  | complaint (kind : ComplaintKind)
  deriving DecidableEq, Repr

/-- The name of a kind, which no two kinds share. -/
def ReportKind.name : ReportKind → Text
  | fault kind => kind.name
  | complaint kind => kind.name

structure Report where
  kind : ReportKind
  offset : Int
  detail : Option Text := none
  deriving DecidableEq, Repr

namespace Report

def summary (r : Report) : Text :=
  r.kind.name ++ " at offset ".toList ++ Text.ofInt r.offset

/-- The summary, followed by the detail unless that is absent or empty. -/
def message (r : Report) : Text :=
  match r.detail with
  | none | some [] => r.summary
  | some detail => r.summary ++ ": ".toList ++ detail

end Report

end Pebble

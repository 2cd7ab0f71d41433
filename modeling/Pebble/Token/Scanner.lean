import Pebble.Cursor
import Pebble.Token.Scan

/-!
Scanning step by step: a cursor over the text on which any rule can be run, whether its first
character fits or not. A rule leaves the cursor behind the token, or where it had got to when it
found a fault.
-/

namespace Pebble

abbrev Scanner := Cursor Char

namespace Scanner

inductive Rule where
  | token
  | identifier
  | number
  | character
  | string
  | operator
  deriving DecidableEq, Repr

/-- What a rule makes of the text `here` that starts at the cursor. The rules for identifiers and
literals take the first character as it is, and look only at the text `next` that follows it. -/
def Rule.apply (here next : Text) : Rule → Scan.Outcome
  | token => Scan.token here
  | identifier => Scan.identifier next
  | number => Scan.number here
  | character => Scan.character next
  | string => Scan.string 1 next
  | operator => Scan.operator here

def emit (s : Scanner) (kind : TokenKind) (start : Int) : Token :=
  ⟨kind, Text.slice s.items start s.position, start⟩

def run (s : Scanner) (rule : Rule) : Except Report Token × Scanner :=
  match rule.apply s.view (s.viewAt (s.position + 1)) with
  | .token kind length =>
    let moved := s.advance length
    (.ok (emit moved kind s.position), moved)
  | .fault cause place read => (.error (cause.report (s.position + place)), s.advance read)

/-- Moves over a backslash at the cursor and its letter. If the text ends first, the literal that
began at `start` is reported as `unterminated`. -/
def escape (s : Scanner) (start : Int) (unterminated : FaultKind) : Except Report Unit × Scanner :=
  match s.peek? 1 with
  | none => (.error ⟨.fault unterminated, start, none⟩, s)
  | some letter =>
    if Escape.isLetter letter then (.ok (), s.advance 2)
    else (.error ((Fault.unknownEscape letter).report s.position), s)

def finish (s : Scanner) : Except Report (List Token) × Scanner :=
  let found := scan s.position s.view
  let moved := s.advance found.read
  match found.report with
  | some report => (.error report, moved)
  | none => (.ok found.tokens, moved)

end Scanner

end Pebble

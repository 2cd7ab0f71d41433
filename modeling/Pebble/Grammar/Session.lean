import Pebble.Cursor
import Pebble.Failure
import Pebble.Grammar.Source

/-!
Sessions: rules run one after the other on the same tokens.

A session remembers how far the rules have come and how many levels were opened and left open
between them. A rule leaves the session behind the tokens it took, also when it fails, and it
closes what it opens.
-/

namespace Pebble

structure Session where
  cursor : Cursor Token
  side : Associativity := .right
  depth : Nat := 0
  deriving DecidableEq, Repr

namespace Session

def start (side : Associativity) (tokens : List Token) : Session :=
  { cursor := ⟨tokens, 0⟩, side }

def startTo (side : Except Text Associativity) (tokens : List Token) : Except Failure Session :=
  match side with
  | .error shown => .error (.unknownAssociativity shown)
  | .ok side => .ok (start side tokens)

def levels (s : Session) : Nat := maxNesting - s.depth

/-- The offset at which the next token is, or the offset just past the last token if there is no
next one. -/
def offset (s : Session) : Int :=
  match s.cursor.peek? 0 with
  | some token => token.offset
  | none => (s.cursor.items.getLast?.map Token.stop).getD 0

/-- The offset at which a complaint is reported. A missing semicolon is reported at the token
before the place where it should stand. -/
def offsetOf (s : Session) : Complaint → Int
  | .missingSemicolon => ((s.cursor.peek? (-1)).map Token.offset).getD s.offset
  | _ => s.offset

/-- The failure to which a stop leads, in the state that the rule has left. -/
def failure (s : Session) : Stop → Failure
  | .complaint cause => .report (cause.report (s.offsetOf cause))
  | .numeral fault => .numeral fault

/-- The session in which only `rest` is left of what is to be seen. -/
def leaving (s : Session) (rest : List Token) : Session :=
  { s with cursor := s.cursor.advance (s.cursor.view.length - rest.length) }

def run {α : Type} (s : Session) (rule : Rule α) : Except Failure α × Session :=
  match rule s.cursor.view with
  | .ok value rest => (.ok value, s.leaving rest)
  | .error stop rest => (.error ((s.leaving rest).failure stop), s.leaving rest)

/-- Opens a level and leaves it open. -/
def enter (s : Session) : Except Failure Unit × Session :=
  if s.levels = 0 then (.error (s.failure (.complaint .nestingTooDeep)), s)
  else (.ok (), { s with depth := s.depth + 1 })

/-- Moves past the next token, whatever it is, and also when there is none. -/
def skip (s : Session) : Session := { s with cursor := s.cursor.advance 1 }

end Session

def parse (side : Associativity) (tokens : List Token) : Except Failure Source :=
  let session := Session.start side tokens
  (session.run (Rule.source side session.levels)).1

def parseTo (side : Except Text Associativity) (tokens : List Token) : Except Failure Source :=
  match side with
  | .error shown => .error (.unknownAssociativity shown)
  | .ok side => parse side tokens

end Pebble

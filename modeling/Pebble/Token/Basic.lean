import Pebble.Text.Quoted

/-!
Tokens: a kind, the text exactly as it stands in the source, and the offset of its first
character.
-/

namespace Pebble

/-- The six kinds of tokens. Keywords are identifiers to the scan. -/
inductive TokenKind where
  | identifier
  | integer
  | decimal
  | character
  | string
  | operator
  deriving DecidableEq, Repr

namespace TokenKind

def name : TokenKind → Text
  | identifier => "IDENTIFIER".toList
  | integer => "INTEGER".toList
  | decimal => "DECIMAL".toList
  | character => "CHARACTER".toList
  | string => "STRING".toList
  | operator => "OPERATOR".toList

def all : List TokenKind := [identifier, integer, decimal, character, string, operator]

def ofName? (text : Text) : Option TokenKind := all.find? fun kind => kind.name == text

theorem ofName?_name (kind : TokenKind) : ofName? kind.name = some kind := by
  cases kind <;> decide

end TokenKind

structure Token where
  kind : TokenKind
  literal : Text
  offset : Int
  deriving DecidableEq, Repr

namespace Token

/-- The offset just past a token. -/
def stop (token : Token) : Int := token.offset + token.literal.length

def describe (token : Token) : Text :=
  "Token(".toList ++ token.kind.name ++ ", ".toList ++ Text.quoted token.literal ++
    ", ".toList ++ Text.ofInt token.offset ++ ")".toList

end Token

end Pebble

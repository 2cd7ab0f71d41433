import Pebble.Token.Keyword

/-!
Patterns: what the grammar asks of a single token.
-/

namespace Pebble

/-- A pattern is a kind of token, a keyword in any case, or an operator with exactly that text. -/
inductive Pattern where
  | kind (kind : TokenKind)
  | keyword (word : Keyword)
  | operator (literal : Text)
  deriving DecidableEq, Repr

namespace Pattern

def accepts : Pattern → Token → Bool
  | kind k, token => token.kind = k
  | keyword word, token => token.keyword? = some word
  | operator literal, token => token.kind = .operator && token.literal = literal

def ofText (text : Text) : Pattern :=
  match Keyword.ofSpelling? text with
  | some word => .keyword word
  | none => .operator text

def mark (c : Char) : Pattern := .operator [c]

def spelling : Pattern → Text
  | kind k => k.name
  | keyword word => word.spelling
  | operator literal => literal

def shown : Pattern → Text
  | kind k => "<TokenKind.".toList ++ k.name ++ ": ".toList ++ Text.quoted k.name ++ ">".toList
  | pattern => Text.quoted pattern.spelling

theorem ofText_spelling (word : Keyword) : ofText word.spelling = .keyword word := by
  simp [ofText, Keyword.ofSpelling?_spelling]

end Pattern

end Pebble

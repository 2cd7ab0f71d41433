import Pebble.Text.Basic

/-!
The escapes of character and string literals: a backslash and a letter stand for one character.
-/

namespace Pebble.Escape

def denoted? : Char → Option Char
  | 'n' => some '\n'
  | 't' => some '\t'
  | 'r' => some '\r'
  | '\\' => some '\\'
  | '"' => some '"'
  | '\'' => some '\''
  | _ => none

def isLetter (c : Char) : Bool := (denoted? c).isSome

/-- Replaces each escape by the character it stands for. After a backslash any other letter stands
for itself, and a backslash that ends the text stays. -/
def decode : Text → Text
  | '\\' :: c :: rest => (denoted? c).getD c :: decode rest
  | c :: rest => c :: decode rest
  | [] => []

end Pebble.Escape

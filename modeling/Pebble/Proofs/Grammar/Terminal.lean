import Mathlib.Tactic.Lemma
import Pebble.Grammar.Expression

/-!
Terminals: the classes of tokens between which the grammar can tell. Which pattern a token fits,
whether it can be a name and whether it is a constant depends on its terminal alone.
-/

namespace Pebble

/-- A class of tokens: a keyword in any case, a name, a kind of literal, or an operator with one
text. -/
inductive Terminal where
  | word (word : Keyword)
  | name
  | integer
  | decimal
  | character
  | string
  | operator (literal : Text)
  deriving DecidableEq, Repr

namespace Terminal

def mark (c : Char) : Terminal := .operator [c]

/-- Whether the tokens of a class stand for a value. -/
def isConstant : Terminal → Bool
  | word w => w = .NIL || w = .TRUE || w = .FALSE
  | integer | decimal | character | string => true
  | name | operator _ => false

def token : Terminal → Token
  | word w => ⟨.identifier, w.spelling, 0⟩
  | name => ⟨.identifier, ['x'], 0⟩
  | integer => ⟨.integer, ['0'], 0⟩
  | decimal => ⟨.decimal, ['0', '.', '0'], 0⟩
  | character => ⟨.character, ['\'', 'x', '\''], 0⟩
  | string => ⟨.string, ['"', '"'], 0⟩
  | operator literal => ⟨.operator, literal, 0⟩

end Terminal

def Token.terminal (token : Token) : Terminal :=
  match token.kind with
  | .identifier =>
    match Keyword.ofText? token.literal with
    | some word => .word word
    | none => .name
  | .integer => .integer
  | .decimal => .decimal
  | .character => .character
  | .string => .string
  | .operator => .operator token.literal

@[simp] lemma Terminal.terminal_token (c : Terminal) : c.token.terminal = c := by
  cases c with
  | word w => cases w <;> decide
  | name => decide
  | _ => rfl

namespace Token

variable {token : Token}

lemma keyword?_eq_some_iff {word : Keyword} :
    token.keyword? = some word ↔ token.terminal = .word word := by
  obtain ⟨kind, literal, offset⟩ := token
  cases kind <;> simp only [keyword?, terminal, reduceCtorEq, if_true, if_false]
  cases Keyword.ofText? literal <;> simp

lemma isName_iff : token.isName ↔ token.terminal = .name := by
  obtain ⟨kind, literal, offset⟩ := token
  cases kind <;> simp only [isName, isKeyword, keyword?, terminal, reduceCtorEq, decide_true,
    decide_false, if_true, if_false, Bool.false_and, Bool.true_and, Bool.false_eq_true]
  cases Keyword.ofText? literal <;> simp

end Token

namespace Pattern

lemma accepts_keyword {word : Keyword} {token : Token} :
    (keyword word).accepts token ↔ token.terminal = .word word := by
  simp [accepts, Token.keyword?_eq_some_iff]

lemma accepts_operator {literal : Text} {token : Token} :
    (operator literal).accepts token ↔ token.terminal = .operator literal := by
  obtain ⟨kind, text, offset⟩ := token
  cases kind <;> simp [accepts, Token.terminal]
  cases Keyword.ofText? text <;> simp

lemma accepts_mark {c : Char} {token : Token} :
    (mark c).accepts token ↔ token.terminal = .mark c :=
  accepts_operator

end Pattern

end Pebble

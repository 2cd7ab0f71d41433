import Pebble.Grammar.Rule

/-!
Chains: operands joined by operators of one precedence level. A chain is read from left to right
and then folded to one side, so that a long one needs no nesting.
-/

namespace Pebble

/-- The side to which a chain is folded: `a - b - c` is `a - (b - c)` to the right and
`(a - b) - c` to the left. -/
inductive Associativity where
  | right
  | left
  deriving DecidableEq, Repr

namespace Associativity

def name : Associativity → Text
  | right => "right".toList
  | left => "left".toList

def ofName? (text : Text) : Option Associativity := [right, left].find? fun a => a.name == text

theorem ofName?_name (a : Associativity) : ofName? a.name = some a := by
  cases a <;> decide

/-- The side of a given name. Instead of a side an unknown name gives its quoted form. -/
def named (text : Text) : Except Text Associativity :=
  match ofName? text with
  | none => .error (Text.quoted text)
  | some side => .ok side

variable {α : Type}

def foldRight (combine : Text → α → α → α) (first : α) : List (Text × α) → α
  | [] => first
  | (operator, next) :: others => combine operator first (foldRight combine next others)

def foldLeft (combine : Text → α → α → α) (first : α) : List (Text × α) → α
  | [] => first
  | (operator, next) :: others => foldLeft combine (combine operator first next) others

/-- Folds a chain, given as its first operand and the operators and operands that follow. -/
def fold : Associativity → (Text → α → α → α) → α → List (Text × α) → α
  | right => foldRight
  | left => foldLeft

end Associativity

namespace Rule

variable {α : Type}

/-- The operators and operands that follow the first operand of a chain. Each round takes a token,
so that `bound` may be the tokens that are left. -/
def links (operators : List Pattern) (operand : Rule α) : List Token → Rule (List (Text × α))
  | [] => return []
  | _ :: bound => do
    match ← accept? operators with
    | none => return []
    | some operator =>
      let next ← operand
      return (operator.literal, next) :: (← links operators operand bound)

def chain (side : Associativity) (combine : Text → α → α → α) (operators : List Pattern)
    (operand : Rule α) : Rule α := do
  let first ← operand
  return side.fold combine first (← links operators operand (← get))

end Rule

end Pebble

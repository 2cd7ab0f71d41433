import Pebble.Grammar.Chain
import Pebble.Text.Escape
import Pebble.Tree.Basic

/-!
The rules for expressions.

The rules of the levels take the rule `inner` for a whole expression, which stands in parentheses
and in arguments. `expression` closes the circle: it has a number of levels left that may be
opened, and each expression inside another one has one less.
-/

namespace Pebble

def Keyword.constant? : Keyword → Option Value
  | NIL => some .nil
  | TRUE => some (.bool true)
  | FALSE => some (.bool false)
  | _ => none

namespace Rule

def integer (numeral : Text) : Rule Value :=
  match Numeral.readInteger numeral with
  | .ok n => return .integer n
  | .error fault => throw (.numeral fault)

def decimal (numeral : Text) : Rule Value :=
  match Decimal.read numeral with
  | .ok d => return .decimal d
  | .error fault => throw (.numeral fault)

/-- The arguments of a call, after its opening parenthesis. -/
def arguments (inner : Rule Expr) : Rule (List Expr) := do
  if ← accepts (.mark ')') then
    return []
  else
    let values ← commaSeparated inner
    if ← accepts (.mark ')') then return values else refuse .unclosedArguments

def named (inner : Rule Expr) (name : Text) : Rule Expr := do
  if ← accepts (.mark '(') then return .call name (← arguments inner) else return .variable name

def grouped (inner : Rule Expr) : Rule Expr := do
  let value ← inner
  discard (demand (.mark ')') .unclosedGroup)
  return .group value

/-- A primary expression: a literal, a name, a call or a group. A literal text is what stands
between the first and the last character of its token. -/
def primary (inner : Rule Expr) : Rule Expr := do
  match ← get with
  | [] => refuse .expectedExpression
  | token :: rest =>
    match token.keyword? with
    | some word =>
      match word.constant? with
      | some value =>
        set rest
        return .literal value
      | none => refuse .expectedExpression
    | none =>
      match token.kind with
      | .identifier =>
        set rest
        named inner token.literal
      | .integer =>
        set rest
        return .literal (← integer token.literal)
      | .decimal =>
        set rest
        return .literal (← decimal token.literal)
      | .character | .string =>
        set rest
        return .literal (.text (Escape.decode token.literal.tail.dropLast))
      | .operator =>
        if token.literal = ['('] then
          set rest
          grouped inner
        else
          refuse .expectedExpression

/-- The members that follow a receiver, each after a point: `.name` is a field and `.name(…)` a
call. Each round takes a token, so that `bound` may be the tokens that are left. -/
def members (inner : Rule Expr) (receiver : Expr) : List Token → Rule Expr
  | [] => return receiver
  | _ :: bound => do
    if ← accepts (.mark '.') then
      let name ← name
      if ← accepts (.mark '(') then
        members inner (.invoke receiver name (← arguments inner)) bound
      else
        members inner (.member receiver name) bound
    else
      return receiver

def secondary (inner : Rule Expr) : Rule Expr := do
  let receiver ← primary inner
  members inner receiver (← get)

end Rule

inductive Level where
  | logical
  | equality
  | additive
  | multiplicative
  deriving DecidableEq, Repr

def Level.operators : Level → List Text
  | logical => ["&&".toList, "||".toList]
  | equality =>
    ["==".toList, "!=".toList, ">=".toList, ">".toList, "<=".toList, "<".toList]
  | additive => ["+".toList, "-".toList]
  | multiplicative => ["*".toList, "/".toList]

namespace Rule

def level (side : Associativity) (l : Level) (operand : Rule Expr) : Rule Expr :=
  chain side .binary (l.operators.map .operator) operand

def multiplicative (side : Associativity) (inner : Rule Expr) : Rule Expr :=
  level side .multiplicative (secondary inner)

def additive (side : Associativity) (inner : Rule Expr) : Rule Expr :=
  level side .additive (multiplicative side inner)

def equality (side : Associativity) (inner : Rule Expr) : Rule Expr :=
  level side .equality (additive side inner)

def logical (side : Associativity) (inner : Rule Expr) : Rule Expr :=
  level side .logical (equality side inner)

/-- An expression, with so many levels left that may be opened. It opens one. -/
def expression (side : Associativity) : (levels : Nat) → Rule Expr
  | 0 => refuse .nestingTooDeep
  | levels + 1 => logical side (expression side levels)

end Rule

end Pebble

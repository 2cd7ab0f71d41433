import Pebble.Grammar.Statement

/-!
The rules for a whole source: fields and methods in any order, up to the last token.
-/

namespace Pebble

namespace Rule

def field (inner : Rule Expr) : Rule Field := do
  let name ← name
  let typeName ← after? ':' Rule.name
  let value ← after? '=' inner
  semicolon
  return { name, typeName, value }

def parameters : Rule (List Text) := do
  if ← accepts (.mark ')') then
    return []
  else
    let names ← commaSeparated name
    discard (demand (.mark ')') .unclosedParameters)
    return names

def method (block : List Pattern → Rule (List Stmt)) : Rule Method := do
  let name ← name
  discard (demand (.mark '(') .expectedParameters)
  let parameters ← parameters
  demandWord .DO
  let body ← block [.keyword .END]
  closing
  return { name, parameters, body }

end Rule

inductive Item where
  | field (field : Field)
  | method (method : Method)
  deriving Repr

def Source.ofItems : List Item → Source
  | [] => {}
  | .field field :: items =>
    let rest := ofItems items
    { rest with fields := field :: rest.fields }
  | .method method :: items =>
    let rest := ofItems items
    { rest with methods := method :: rest.methods }

namespace Rule

def unexpected {α : Type} : Rule α := do
  match ← get with
  | [] => refuse (.unexpectedToken [])
  | token :: _ => refuse (.unexpectedToken token.literal)

/-- A field or a method, by its first token. -/
def item (inner : Rule Expr) (block : List Pattern → Rule (List Stmt)) : Rule Item := do
  if ← accepts (.keyword .LET) then
    return .field (← field inner)
  else if ← accepts (.keyword .DEF) then
    return .method (← method block)
  else
    unexpected

/-- Items up to the last token. Each takes a token, so that `bound` may be the tokens that are
left. -/
def items (item : Rule Item) : List Token → Rule (List Item)
  | [] => return []
  | _ :: bound => do
    if (← get).isEmpty then
      return []
    else
      let first ← item
      return first :: (← items item bound)

def source (side : Associativity) (levels : Nat) : Rule Source := do
  let found ← items (item (expression side levels) (block side levels)) (← get)
  return .ofItems found

end Rule

end Pebble

import Pebble.Grammar.Expression

/-!
The rules for statements and blocks. A block opens a level, as an expression does, and the
statements in it have what is left.
-/

namespace Pebble.Rule

/-- Statements up to a token that fits one of the terminators, which is not taken. Each statement
takes a token, so that `bound` may be the tokens that are left. -/
def statements (terminators : List Pattern) (statement : Rule Stmt) :
    List Token → Rule (List Stmt)
  | [] => refuse (.unclosedBlock terminators)
  | _ :: bound => do
    if ← check terminators then
      return []
    else if (← get).isEmpty then
      refuse (.unclosedBlock terminators)
    else
      let first ← statement
      return first :: (← statements terminators statement bound)

def blockOf (statement : Rule Stmt) (terminators : List Pattern) : Rule (List Stmt) := do
  statements terminators statement (← get)

/-- The end of a statement that ends with a block. -/
def closing : Rule Unit := demandWord .END

def declaration (inner : Rule Expr) : Rule Stmt := do
  let name ← name
  let value ← after? '=' inner
  semicolon
  return .declaration name value

def ifElse (inner : Rule Expr) (block : List Pattern → Rule (List Stmt)) : Rule Stmt := do
  let condition ← inner
  demandWord .DO
  let thenBody ← block [.keyword .ELSE, .keyword .END]
  let elseBody ← if ← accepts (.keyword .ELSE) then block [.keyword .END] else pure []
  closing
  return .ifElse condition thenBody elseBody

def forIn (inner : Rule Expr) (block : List Pattern → Rule (List Stmt)) : Rule Stmt := do
  let name ← name
  demandWord .IN
  let value ← inner
  demandWord .DO
  let body ← block [.keyword .END]
  closing
  return .forIn name value body

def whileDo (inner : Rule Expr) (block : List Pattern → Rule (List Stmt)) : Rule Stmt := do
  let condition ← inner
  demandWord .DO
  let body ← block [.keyword .END]
  closing
  return .whileDo condition body

def returning (inner : Rule Expr) : Rule Stmt := do
  let value ← inner
  semicolon
  return .return value

/-- An expression as a statement, or an assignment to what it denotes. -/
def assignment (inner : Rule Expr) : Rule Stmt := do
  let receiver ← inner
  match ← after? '=' inner with
  | some value =>
    semicolon
    return .assignment receiver value
  | none =>
    semicolon
    return .expression receiver

/-- A statement, by its first token, given the rules for expressions and blocks. -/
def statementOf (inner : Rule Expr) (block : List Pattern → Rule (List Stmt)) : Rule Stmt := do
  if ← accepts (.keyword .LET) then
    declaration inner
  else if ← accepts (.keyword .IF) then
    ifElse inner block
  else if ← accepts (.keyword .FOR) then
    forIn inner block
  else if ← accepts (.keyword .WHILE) then
    whileDo inner block
  else if ← accepts (.keyword .RETURN) then
    returning inner
  else
    assignment inner

def statement (side : Associativity) : (levels : Nat) → Rule Stmt
  | 0 => statementOf (expression side 0) fun _ => refuse .nestingTooDeep
  | levels + 1 => statementOf (expression side (levels + 1)) (blockOf (statement side levels))

/-- A block, with so many levels left that may be opened. It opens one. -/
def block (side : Associativity) : (levels : Nat) → List Pattern → Rule (List Stmt)
  | 0 => fun _ => refuse .nestingTooDeep
  | levels + 1 => blockOf (statement side levels)

/-- A statement's blocks are blocks with the levels of the statement. -/
theorem statement_eq (side : Associativity) (levels : Nat) :
    statement side levels = statementOf (expression side levels) (block side levels) := by
  cases levels <;> rfl

end Pebble.Rule

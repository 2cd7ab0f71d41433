import Pebble.Grammar.Session
import Pebble.Tree.Content

/-!
The constructs of the language by name. Every construct has a rule, which gives its record.
-/

namespace Pebble

/-- The constructs that have a rule of their own. Those that follow a keyword or an opening
parenthesis begin after it. -/
inductive Construct where
  | source
  | field
  | method
  | statement
  | declaration
  | ifElse
  | forIn
  | whileDo
  | returning
  | expression
  | logical
  | equality
  | additive
  | multiplicative
  | secondary
  | primary
  | arguments
  deriving DecidableEq, Repr

namespace Construct

/-- The rule of a construct, with so many levels left that may be opened. -/
def rule (side : Associativity) (levels : Nat) : Construct → Rule Record
  | source => Source.record <$> Rule.source side levels
  | field => Field.record <$> Rule.field (Rule.expression side levels)
  | method => Method.record <$> Rule.method (Rule.block side levels)
  | statement => Stmt.record <$> Rule.statement side levels
  | declaration => Stmt.record <$> Rule.declaration (Rule.expression side levels)
  | ifElse => Stmt.record <$> Rule.ifElse (Rule.expression side levels) (Rule.block side levels)
  | forIn => Stmt.record <$> Rule.forIn (Rule.expression side levels) (Rule.block side levels)
  | whileDo => Stmt.record <$> Rule.whileDo (Rule.expression side levels) (Rule.block side levels)
  | returning => Stmt.record <$> Rule.returning (Rule.expression side levels)
  | expression => Expr.record <$> Rule.expression side levels
  | logical => Expr.record <$> Rule.logical side (Rule.expression side levels)
  | equality => Expr.record <$> Rule.equality side (Rule.expression side levels)
  | additive => Expr.record <$> Rule.additive side (Rule.expression side levels)
  | multiplicative => Expr.record <$> Rule.multiplicative side (Rule.expression side levels)
  | secondary => Expr.record <$> Rule.secondary (Rule.expression side levels)
  | primary => Expr.record <$> Rule.primary (Rule.expression side levels)
  | arguments =>
    (fun es => .list (Expr.records es)) <$> Rule.arguments (Rule.expression side levels)

end Construct

namespace Session

def read (s : Session) (construct : Construct) : Except Failure Record × Session :=
  s.run (construct.rule s.side s.levels)

/-- Reads the statements of a block up to one of the terminators, which is not taken. -/
def readBlock (s : Session) (terminators : List Pattern) : Except Failure Record × Session :=
  s.run ((fun body => .list (Stmt.records body)) <$> Rule.block s.side s.levels terminators)

def readChain (s : Session) (operators : List Pattern) (operand : Rule Record) :
    Except Failure Record × Session :=
  s.run (Rule.chain s.side Record.binary operators operand)

end Session

end Pebble

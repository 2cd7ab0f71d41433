import Pebble.Number.Decimal

/-!
Syntax trees. A source holds fields and methods, a method holds statements, and these hold
expressions. Precedence shows in the nesting alone.
-/

namespace Pebble

/-- The value of a literal. Escapes in a text are decoded. -/
inductive Value where
  | nil
  | bool (b : Bool)
  | integer (n : Int)
  | decimal (d : Decimal)
  | text (t : Text)
  deriving DecidableEq, Repr

/-- An expression. A group is an expression in parentheses; `variable` and `call` name a variable
and a function, `member` and `invoke` a field and a method of the value of an expression. -/
inductive Expr where
  | literal (value : Value)
  | group (inner : Expr)
  | variable (name : Text)
  | member (receiver : Expr) (name : Text)
  | call (name : Text) (arguments : List Expr)
  | invoke (receiver : Expr) (name : Text) (arguments : List Expr)
  | binary (operator : Text) (left right : Expr)
  deriving Repr

inductive Stmt where
  | expression (value : Expr)
  | assignment (receiver value : Expr)
  | declaration (name : Text) (value : Option Expr)
  | ifElse (condition : Expr) (thenBody elseBody : List Stmt)
  | forIn (name : Text) (value : Expr) (body : List Stmt)
  | whileDo (condition : Expr) (body : List Stmt)
  | return (value : Expr)
  deriving Repr

/-- A variable of the whole source, with a type name and an initial value if they are written. -/
structure Field where
  name : Text
  typeName : Option Text := none
  value : Option Expr := none
  deriving Repr

def Field.hasType (field : Field) : Bool := field.typeName.isSome

structure Method where
  name : Text
  parameters : List Text := []
  body : List Stmt := []
  deriving Repr

/-- A whole source: its fields and its methods, each in the order in which they are written. -/
structure Source where
  fields : List Field := []
  methods : List Method := []
  deriving Repr

end Pebble

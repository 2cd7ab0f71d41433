import Pebble.Tree.Content

/-!
When two trees are alike: they have the same shape and names, and their literals have equal
values. Numbers are compared by value, whatever their form, and a truth value counts as the number
1 or 0; so trees that are written differently can be alike.
-/

namespace Pebble

structure Scaled where
  mantissa : Int
  exponent : Int

namespace Scaled

/-- The mantissa of a number when it is brought to an exponent that is not above its own. -/
def mantissaAt (a : Scaled) (exponent : Int) : Int :=
  a.mantissa * (Nat.pow 10 (a.exponent - exponent).toNat : Nat)

/-- Whether two numbers are equal: they are if they have the same mantissa when the one with the
greater exponent is brought to the exponent of the other. -/
def alike (a b : Scaled) : Bool :=
  if a.exponent ≤ b.exponent then a.mantissa == b.mantissaAt a.exponent
  else a.mantissaAt b.exponent == b.mantissa

end Scaled

def Decimal.scaled? : Decimal → Option Scaled
  | finite negative coefficient exponent => some ⟨Numeral.signed negative coefficient, exponent⟩
  | infinite _ | nan _ _ _ => none

def Scaled.ofBool (b : Bool) : Scaled := ⟨if b then 1 else 0, 0⟩

def Value.scaled? : Value → Option Scaled
  | .bool b => some (.ofBool b)
  | .integer n => some ⟨n, 0⟩
  | .decimal d => d.scaled?
  | .nil | .text _ => none

/-- Whether two values are equal. What is no number equals nothing, itself included. -/
def Value.alike : Value → Value → Bool
  | .nil, .nil => true
  | .text a, .text b => a == b
  | .decimal (.infinite a), .decimal (.infinite b) => a == b
  | a, b =>
    match a.scaled?, b.scaled? with
    | some x, some y => x.alike y
    | _, _ => false

def optionAlike {α : Type} (alike : α → α → Bool) : Option α → Option α → Bool
  | none, none => true
  | some a, some b => alike a b
  | _, _ => false

def listAlike {α : Type} (alike : α → α → Bool) : List α → List α → Bool
  | [], [] => true
  | a :: as, b :: bs => alike a b && listAlike alike as bs
  | _, _ => false

mutual

def Expr.alike : Expr → Expr → Bool
  | .literal a, .literal b => a.alike b
  | .group a, .group b => a.alike b
  | .variable a, .variable b => a == b
  | .member a name, .member b name' => a.alike b && name == name'
  | .call name as, .call name' bs => name == name' && Expr.allAlike as bs
  | .invoke a name as, .invoke b name' bs => a.alike b && name == name' && Expr.allAlike as bs
  | .binary operator a b, .binary operator' a' b' =>
    operator == operator' && a.alike a' && b.alike b'
  | _, _ => false

def Expr.allAlike : List Expr → List Expr → Bool
  | [], [] => true
  | a :: as, b :: bs => a.alike b && Expr.allAlike as bs
  | _, _ => false

end

mutual

def Stmt.alike : Stmt → Stmt → Bool
  | .expression a, .expression b => a.alike b
  | .assignment a b, .assignment a' b' => a.alike a' && b.alike b'
  | .declaration name a, .declaration name' b => name == name' && optionAlike Expr.alike a b
  | .ifElse a as bs, .ifElse a' as' bs' =>
    a.alike a' && Stmt.allAlike as as' && Stmt.allAlike bs bs'
  | .forIn name a as, .forIn name' b bs => name == name' && a.alike b && Stmt.allAlike as bs
  | .whileDo a as, .whileDo b bs => a.alike b && Stmt.allAlike as bs
  | .return a, .return b => a.alike b
  | _, _ => false

def Stmt.allAlike : List Stmt → List Stmt → Bool
  | [], [] => true
  | a :: as, b :: bs => a.alike b && Stmt.allAlike as bs
  | _, _ => false

end

def Field.alike (a b : Field) : Bool :=
  a.name == b.name && a.typeName == b.typeName && optionAlike Expr.alike a.value b.value

def Method.alike (a b : Method) : Bool :=
  a.name == b.name && a.parameters == b.parameters && Stmt.allAlike a.body b.body

def Source.alike (a b : Source) : Bool :=
  listAlike Field.alike a.fields b.fields && listAlike Method.alike a.methods b.methods

def Record.scaled? : Record → Option Scaled
  | .bool b => some (.ofBool b)
  | .integer n => some ⟨n, 0⟩
  | .decimal d => d.scaled?
  | .nil | .text _ | .list _ | .node _ _ => none

mutual

def Record.alike : Record → Record → Bool
  | .list as, .list bs => Record.itemsAlike as bs
  | .node kind as, .node kind' bs => kind == kind' && Record.partsAlike as bs
  | .nil, .nil => true
  | .text a, .text b => a == b
  | .decimal (.infinite a), .decimal (.infinite b) => a == b
  | a, b =>
    match a.scaled?, b.scaled? with
    | some x, some y => x.alike y
    | _, _ => false

def Record.itemsAlike : List Record → List Record → Bool
  | [], [] => true
  | a :: as, b :: bs => a.alike b && Record.itemsAlike as bs
  | _, _ => false

def Record.partsAlike : List (Text × Record) → List (Text × Record) → Bool
  | [], [] => true
  | (name, a) :: as, (name', b) :: bs =>
    name == name' && a.alike b && Record.partsAlike as bs
  | _, _ => false

end

end Pebble

import Pebble.Grammar.Statement
import Pebble.Proofs.Token.Lexeme

/-!
Proper trees: those in which precedence shows in the nesting alone, so that every tree can be
written down and none is read otherwise.
-/

namespace Pebble

/-! ### Precedence -/

namespace Level

/-- How tightly the operators of a level bind. -/
def rank : Level → Nat
  | logical => 0
  | equality => 1
  | additive => 2
  | multiplicative => 3

def all : List Level := [logical, equality, additive, multiplicative]

def of? (operator : Text) : Option Level := all.find? fun level => operator ∈ level.operators

/-- An operator belongs to one level only. -/
lemma of?_of_mem {level : Level} {operator : Text} (h : operator ∈ level.operators) :
    of? operator = some level := by
  have hall : ∀ level : Level, ∀ operator ∈ level.operators, of? operator = some level := by
    intro level
    cases level <;> decide
  exact hall level operator h

end Level

def Expr.isBinary : Expr → Bool
  | .binary _ _ _ => true
  | _ => false

/-- How tightly an expression binds: a binary operation as its operator does, and every other
expression tighter than all operators. -/
def Expr.rank : Expr → Nat
  | .binary operator _ _ => ((Level.of? operator).map Level.rank).getD 0
  | _ => 4

namespace Expr

variable {e left right : Expr} {level : Level} {operator : Text}

lemma rank_binary (h : operator ∈ level.operators) :
    (binary operator left right).rank = level.rank := by
  rw [rank, Level.of?_of_mem h]
  rfl

lemma rank_of_not_binary (h : ¬ e.isBinary) : e.rank = 4 := by
  cases e <;> first | rfl | exact absurd rfl h

lemma not_binary_of_rank (h : 4 ≤ e.rank) : ¬ e.isBinary := by
  cases e with
  | binary operator left right =>
    have hrank : (binary operator left right).rank < 4 := by
      rw [rank]
      rcases Level.of? operator with _ | level
      · simp
      · cases level <;> simp [Level.rank]
    omega
  | _ => simp [isBinary]

end Expr

/-- Whether two expressions fit around an operator of a level without parentheses. The one on the
side to which chains fold may be a chain of the same level, the other one must bind tighter. -/
def Associativity.Fits (side : Associativity) (level : Level) (left right : Expr) : Prop :=
  match side with
  | .right => level.rank < left.rank ∧ level.rank ≤ right.rank
  | .left => level.rank ≤ left.rank ∧ level.rank < right.rank

/-! ### Trees that can be written down -/

/-- The texts that can be names: identifiers that are no keywords. -/
def IsName (text : Text) : Prop :=
  text ∈ Lexeme.language .identifier ∧ Keyword.ofText? text = none

/-- The values that can be written: an integer of not too many digits, a finite decimal with at
least one digit after the point, in the range that decimals have, and every text. -/
def Value.Proper : Value → Prop
  | .integer n => (Text.ofNat n.natAbs).length ≤ Numeral.maxDigits
  | .decimal (.finite negative coefficient exponent) =>
    exponent ≤ -1 ∧ (Decimal.finite negative coefficient exponent).inRange
  | .decimal _ => False
  | .nil | .bool _ | .text _ => True

/-- The expressions that can be written, when chains fold to a side. -/
inductive Expr.Proper (side : Associativity) : Expr → Prop
  | literal {v : Value} : v.Proper → Proper side (.literal v)
  | group {e : Expr} : Proper side e → Proper side (.group e)
  | variable {name : Text} : IsName name → Proper side (.variable name)
  | member {receiver : Expr} {name : Text} :
      Proper side receiver → ¬ receiver.isBinary → IsName name →
      Proper side (.member receiver name)
  | call {name : Text} {arguments : List Expr} :
      IsName name → (∀ e ∈ arguments, Proper side e) → Proper side (.call name arguments)
  | invoke {receiver : Expr} {name : Text} {arguments : List Expr} :
      Proper side receiver → ¬ receiver.isBinary → IsName name →
      (∀ e ∈ arguments, Proper side e) → Proper side (.invoke receiver name arguments)
  | binary {level : Level} {operator : Text} {left right : Expr} :
      operator ∈ level.operators → side.Fits level left right →
      Proper side left → Proper side right → Proper side (.binary operator left right)

inductive Stmt.Proper (side : Associativity) : Stmt → Prop
  | expression {v : Expr} : v.Proper side → Proper side (.expression v)
  | assignment {receiver v : Expr} :
      receiver.Proper side → v.Proper side → Proper side (.assignment receiver v)
  | declaration {name : Text} {v : Option Expr} :
      IsName name → (∀ e ∈ v, e.Proper side) → Proper side (.declaration name v)
  | ifElse {condition : Expr} {thenBody elseBody : List Stmt} :
      condition.Proper side → (∀ s ∈ thenBody, Proper side s) → (∀ s ∈ elseBody, Proper side s) →
      Proper side (.ifElse condition thenBody elseBody)
  | forIn {name : Text} {v : Expr} {body : List Stmt} :
      IsName name → v.Proper side → (∀ s ∈ body, Proper side s) →
      Proper side (.forIn name v body)
  | whileDo {condition : Expr} {body : List Stmt} :
      condition.Proper side → (∀ s ∈ body, Proper side s) → Proper side (.whileDo condition body)
  | return {v : Expr} : v.Proper side → Proper side (.return v)

/-! ### Nesting -/

mutual

/-- How many expressions are open inside one another at most, in the groups and arguments of an
expression. -/
def Expr.inside : Expr → Nat
  | .literal _ | .variable _ => 0
  | .group inner => inner.inside + 1
  | .member receiver _ => receiver.inside
  | .call _ arguments => Expr.insideOf arguments
  | .invoke receiver _ arguments => max receiver.inside (Expr.insideOf arguments)
  | .binary _ left right => max left.inside right.inside

/-- How many expressions are open inside one another at most in arguments, which count
themselves. -/
def Expr.insideOf : List Expr → Nat
  | [] => 0
  | e :: es => max (e.inside + 1) (Expr.insideOf es)

end

/-- How many expressions are open inside one another at most in an expression, which counts
itself. -/
def Expr.nesting (e : Expr) : Nat := e.inside + 1

def Expr.nestingOf : Option Expr → Nat
  | none => 0
  | some e => e.nesting

mutual

/-- How many expressions and blocks are open inside one another at most in a statement. -/
def Stmt.nesting : Stmt → Nat
  | .expression v | .return v => v.nesting
  | .assignment receiver v => max receiver.nesting v.nesting
  | .declaration _ v => Expr.nestingOf v
  | .ifElse condition thenBody elseBody =>
    max condition.nesting (max (Stmt.bodyNesting thenBody) (Stmt.bodyNesting elseBody))
  | .forIn _ v body => max v.nesting (Stmt.bodyNesting body)
  | .whileDo condition body => max condition.nesting (Stmt.bodyNesting body)

def Stmt.bodyNesting : List Stmt → Nat
  | [] => 1
  | s :: body => max (s.nesting + 1) (Stmt.bodyNesting body)

end

lemma Expr.insideOf_le_iff {es : List Expr} {n : Nat} :
    Expr.insideOf es ≤ n ↔ ∀ e ∈ es, e.nesting ≤ n := by
  induction es with
  | nil => simp [Expr.insideOf]
  | cons e es ih => simp [Expr.insideOf, Expr.nesting, ih]

lemma Stmt.bodyNesting_le_iff {body : List Stmt} {n : Nat} :
    Stmt.bodyNesting body ≤ n ↔ 1 ≤ n ∧ ∀ s ∈ body, s.nesting + 1 ≤ n := by
  induction body with
  | nil => simp [Stmt.bodyNesting]
  | cons s body ih =>
    simp only [Stmt.bodyNesting, max_le_iff, ih, List.forall_mem_cons]
    tauto

/-! ### Sources -/

structure Field.Proper (side : Associativity) (f : Field) : Prop where
  name : IsName f.name
  typeName : ∀ name ∈ f.typeName, IsName name
  value : ∀ e ∈ f.value, e.Proper side
  nesting : Expr.nestingOf f.value ≤ maxNesting

structure Method.Proper (side : Associativity) (m : Method) : Prop where
  name : IsName m.name
  parameters : ∀ name ∈ m.parameters, IsName name
  body : ∀ s ∈ m.body, s.Proper side
  nesting : Stmt.bodyNesting m.body ≤ maxNesting

structure Source.Proper (side : Associativity) (s : Source) : Prop where
  fields : ∀ f ∈ s.fields, f.Proper side
  methods : ∀ m ∈ s.methods, m.Proper side

end Pebble

import Pebble.Proofs.Grammar.Progress

/-!
Openings: when a rule opens a level, and how many levels are open then.

A level is opened by an expression and by a block. What is read on a level is built from the rules
that open the levels inside it, and asks them one after the other. A plan lays out in which order
it does so, and that between two of its questions it takes only what the brackets allow.
-/

namespace Pebble

/-! ### The rules that open levels -/

/-- What opens a level: an expression, or a block up to one of some terminators. -/
inductive Opening where
  | expression
  | block (terminators : List Pattern)
  deriving DecidableEq, Repr

namespace Opening

abbrev Value : Opening → Type
  | expression => Expr
  | block _ => List Stmt

/-- How many brackets an opening comes after that belong to its own level: the `DO` of a block. -/
def weight : Opening → Nat
  | expression => 0
  | block _ => 1

end Opening

abbrev Openers := (x : Opening) → Rule x.Value

namespace Openers

def expression (o : Openers) : Rule Expr := o .expression

def block (o : Openers) (terminators : List Pattern) : Rule (List Stmt) := o (.block terminators)

/-- What is read on a level, with `o` for the levels inside it. -/
def body (side : Associativity) (o : Openers) : Openers
  | .expression => Rule.logical side o.expression
  | .block terminators => Rule.blockOf (Rule.statementOf o.expression o.block) terminators

/-- The rules with so many levels left that may be opened. -/
def within (side : Associativity) (levels : Nat) : Openers
  | .expression => Rule.expression side levels
  | .block terminators => Rule.block side levels terminators

/-- The openers, but for one of them, which stops at `ts`. -/
def halting (o : Openers) (x : Opening) (ts : List Token) (stop : Stop) : Openers := fun y us =>
  if y = x ∧ us = ts then .error stop us else o y us

variable {side : Associativity} {levels : Nat}

lemma within_zero (x : Opening) (ts : List Token) :
    within side 0 x ts = .error (.complaint .nestingTooDeep) ts := by
  cases x <;> rfl

lemma within_succ : within side (levels + 1) = body side (within side levels) := by
  funext x
  cases x with
  | expression => rfl
  | block terminators =>
    change Rule.blockOf (Rule.statement side levels) terminators = _
    rw [Rule.statement_eq]
    rfl

lemma within_of_lt {depth : Nat} (h : depth < maxNesting) :
    within side (maxNesting - depth) = body side (within side (maxNesting - (depth + 1))) := by
  rw [← within_succ]
  congr 1
  omega

end Openers

/-- A rule that is built from openers opens a level at `us`: with whatever the opener stopped there,
the rule would stop as well. -/
def Asks {α : Type} (F : Openers → Rule α) (o : Openers) (ts : List Token) (x : Opening)
    (us : List Token) : Prop :=
  ∀ stop, F (o.halting x us stop) ts = .error stop us

/-! ### Brackets -/

def Terminal.weight : Terminal → Int
  | .operator ['('] | .word .DO => 1
  | .operator [')'] | .word .END => -1
  | _ => 0

/-- How many brackets some tokens open and leave open: parentheses, and blocks from `DO` to
`END`. -/
def balance : List Token → Int
  | [] => 0
  | t :: ts => t.terminal.weight + balance ts

@[simp] lemma balance_nil : balance [] = 0 := rfl

@[simp] lemma balance_cons (t : Token) (ts : List Token) :
    balance (t :: ts) = t.terminal.weight + balance ts := rfl

@[simp] lemma balance_append (ts us : List Token) :
    balance (ts ++ us) = balance ts + balance us := by
  induction ts with
  | nil => simp
  | cons t ts ih =>
    rw [List.cons_append, balance_cons, balance_cons, ih]
    omega

lemma Terminal.weight_le (c : Terminal) : c.weight ≤ 1 := by
  unfold weight
  split <;> decide

lemma balance_le_length (ts : List Token) : balance ts ≤ ts.length := by
  induction ts with
  | nil => simp
  | cons t ts ih =>
    have := t.terminal.weight_le
    rw [balance_cons, List.length_cons]
    omega

/-- What is left after tokens with so many brackets open have been taken. -/
def Leaves (open' : Int) (ts rest : List Token) : Prop :=
  ∃ used, ts = used ++ rest ∧ balance used = open'

namespace Leaves

variable {m n : Int} {ts us vs : List Token}

lemma refl (ts : List Token) : Leaves 0 ts ts := ⟨[], rfl, rfl⟩

lemma trans (h : Leaves m ts us) (h' : Leaves n us vs) : Leaves (m + n) ts vs := by
  obtain ⟨used, rfl, rfl⟩ := h
  obtain ⟨more, rfl, rfl⟩ := h'
  exact ⟨used ++ more, by simp, by simp⟩

lemma head (t : Token) (ts : List Token) : Leaves t.terminal.weight (t :: ts) ts :=
  ⟨[t], rfl, by simp⟩

lemma suffix (h : Leaves m ts us) : us <:+ ts := by
  obtain ⟨used, rfl, -⟩ := h
  exact List.suffix_append used us

end Leaves

end Pebble

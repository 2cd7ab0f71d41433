import Mathlib.Data.ENat.Basic
import Pebble.Proofs.Grammar.History

/-!
Routines: the rules of the grammar and the loops in them, as they call one another.

A routine is a rule or the rest of a loop. Its code lays out its steps and the routines that it
calls, the rest of its loop among them, so that all recursion is in the calls. With the rules of the
grammar for its calls, the code of a routine is the rule of the grammar again.
-/

namespace Pebble

namespace Rule

variable {α : Type}

/-! ### Rules that take a token -/

instance : Advances name where
  length_lt {ts rest v} h := by
    by_cases hclear : Clear [.name] ts
    · rw [name_of_clear hclear] at h
      cases h
    · rcases ts with _ | ⟨t, ts⟩
      · exact absurd (clear_nil _) hclear
      · rw [name_of_eq (by simpa using hclear)] at h
        cases h
        exact Nat.lt_succ_self _

instance (pattern : Pattern) (kind : ComplaintKind) : Advances (demand pattern kind) where
  length_lt {ts rest v} h := by
    rw [← bind_pure (demand pattern kind), demand_bind] at h
    obtain ⟨found, mid, hfound, hrest⟩ := bind_eq_ok h
    rcases ts with _ | ⟨t, ts⟩
    · cases hfound
      cases hrest
    rw [accept?_cons] at hfound
    split at hfound
    · cases hfound
      cases hrest
      exact Nat.lt_succ_self _
    · cases hfound
      cases hrest

instance {β : Type} {f : α → β} {r : Rule α} [Advances r] : Advances (f <$> r) := by
  rw [map_eq_pure_bind]
  infer_instance

instance : Advances semicolon := by
  unfold semicolon
  infer_instance

instance {item : Rule α} [Advances item] : Advances (commaSeparated item) := by
  unfold commaSeparated
  infer_instance

instance {inner : Rule Expr} [Advances inner] : Advances (arguments inner) := by
  unfold arguments
  infer_instance

section

variable {inner : Rule Expr} [Advances inner] {block : List Pattern → Rule (List Stmt)}
  [∀ terminators, Orderly (block terminators)]

instance : Advances (declaration inner) := by
  unfold declaration
  infer_instance

instance : Advances (ifElse inner block) := by
  rw [ifElse_eq]
  infer_instance

instance : Advances (forIn inner block) := by
  unfold forIn
  infer_instance

instance : Advances (whileDo inner block) := by
  unfold whileDo
  infer_instance

instance : Advances (returning inner) := by
  unfold returning
  infer_instance

instance : Advances (field inner) := by
  unfold field
  infer_instance

instance : Advances (method block) := by
  unfold method
  infer_instance

end

/-! ### The steps of loops and of primary expressions -/

def ended : Rule Bool := do
  return (← get).isEmpty

instance : Orderly ended := by
  unfold ended
  infer_instance

inductive Lead where
  | constant (value : Value)
  | name (name : Text)
  | group

def lead : Rule Lead := fun
  | [] => .error (.complaint .expectedExpression) []
  | t :: rest =>
    match t.reading? with
    | some (.ok v) => .ok (.constant v) rest
    | some (.error fault) => .error (.numeral fault) rest
    | none =>
      if t.terminal = .name then .ok (.name t.literal) rest
      else if t.terminal = .mark '(' then .ok .group rest
      else .error (.complaint .expectedExpression) (t :: rest)

/-- All that `lead` can do at a token. -/
lemma lead_cons (t : Token) (ts : List Token) :
    (∃ found, lead (t :: ts) = .ok found ts) ∨
      (∃ fault, t.reading? = some (.error fault) ∧ lead (t :: ts) = .error (.numeral fault) ts) ∨
      lead (t :: ts) = .error (.complaint .expectedExpression) (t :: ts) := by
  rw [lead]
  cases t.reading? with
  | some read =>
    cases read with
    | ok v => exact .inl ⟨_, rfl⟩
    | error fault => exact .inr (.inl ⟨fault, rfl, rfl⟩)
  | none =>
    dsimp only
    split_ifs
    · exact .inl ⟨_, rfl⟩
    · exact .inl ⟨_, rfl⟩
    · exact .inr (.inr rfl)

instance : Advances lead where
  suffix ts := by
    rcases ts with _ | ⟨t, ts⟩
    · exact List.suffix_refl _
    rcases lead_cons t ts with ⟨found, h⟩ | ⟨fault, -, h⟩ | h
    · rw [h]
      exact List.suffix_cons t ts
    · rw [h]
      exact List.suffix_cons t ts
    · rw [h]
      exact List.suffix_refl _
  numeral {ts rest fault} hres := by
    rcases ts with _ | ⟨t, ts⟩
    · cases hres
    rcases lead_cons t ts with ⟨found, h⟩ | ⟨fault', hread, h⟩ | h
    · cases h.symm.trans hres
    · cases h.symm.trans hres
      exact ⟨t, List.mem_cons_self, hread⟩
    · cases h.symm.trans hres
  length_lt {ts rest v} hres := by
    rcases ts with _ | ⟨t, ts⟩
    · cases hres
    rcases lead_cons t ts with ⟨found, h⟩ | ⟨fault, -, h⟩ | h
    · cases h.symm.trans hres
      exact Nat.lt_succ_self _
    · cases h.symm.trans hres
    · cases h.symm.trans hres

lemma primary_eq (inner : Rule Expr) :
    primary inner = lead >>= fun
      | .constant value => pure (.literal value)
      | .name name => named inner name
      | .group => grouped inner := by
  funext ts
  rcases ts with _ | ⟨t, ts⟩
  · rfl
  rw [primary_cons, bind_apply, lead]
  cases t.reading? with
  | some read => cases read <;> rfl
  | none =>
    dsimp only
    split_ifs <;> rfl

end Rule

/-! ### Routines -/

namespace Construct

abbrev Value : Construct → Type
  | source => Source
  | field => Field
  | method => Method
  | statement | declaration | ifElse | forIn | whileDo | returning => Stmt
  | expression | logical | equality | additive | multiplicative | secondary | primary => Expr
  | arguments => List Expr

def record : (c : Construct) → c.Value → Record
  | source => Source.record
  | field => Field.record
  | method => Method.record
  | statement | declaration | ifElse | forIn | whileDo | returning => Stmt.record
  | expression | logical | equality | additive | multiplicative | secondary | primary => Expr.record
  | arguments => fun es => .list (Expr.records es)

/-- The rule of a construct before its record is made, with openers for the levels inside it. -/
def reading (side : Associativity) (o : Openers) : (c : Construct) → Rule c.Value
  | source => o.source
  | field => Rule.field o.expression
  | method => Rule.method o.block
  | statement => o.statement
  | declaration => Rule.declaration o.expression
  | ifElse => Rule.ifElse o.expression o.block
  | forIn => Rule.forIn o.expression o.block
  | whileDo => Rule.whileDo o.expression o.block
  | returning => Rule.returning o.expression
  | expression => o.expression
  | logical => Rule.logical side o.expression
  | equality => Rule.equality side o.expression
  | additive => Rule.additive side o.expression
  | multiplicative => Rule.multiplicative side o.expression
  | secondary => Rule.secondary o.expression
  | primary => Rule.primary o.expression
  | arguments => Rule.arguments o.expression

lemma record_map_reading (side : Associativity) (o : Openers) (c : Construct) :
    c.record <$> c.reading side o = o.construct side c := by
  cases c <;> rfl

end Construct

/-- What can be called: the constructs, a block, the parts of which chains are made, and of each
loop the rest from some round on: the items of a source, the statements of a block, the operators
and operands of a chain, the members behind a receiver, and the items of a list behind the first. -/
inductive Routine where
  | construct (construct : Construct)
  | block (terminators : List Pattern)
  | part (part : Part)
  | operand (part : Part)
  | items
  | statements (terminators : List Pattern)
  | links (operators : List Pattern) (operand : Routine)
  | members (receiver : Expr)
  | others (item : Routine)
  deriving Repr

namespace Routine

abbrev Value : Routine → Type
  | construct c => c.Value
  | block _ | statements _ => List Stmt
  | part p => p.Value
  | operand _ => Record
  | items => List Item
  | links _ r => List (Text × r.Value)
  | members _ => Expr
  | others r => List r.Value

def opens : Routine → Nat
  | construct .expression | block _ => 1
  | _ => 0

def rule (side : Associativity) (o : Openers) : (r : Routine) → Rule r.Value
  | construct c => c.reading side o
  | block terminators => o.block terminators
  | part p => p.rule side o
  | operand p => p.record <$> p.rule side o
  | items => get >>= Rule.items (Rule.item o.expression o.block)
  | statements terminators => Rule.blockOf o.statement terminators
  | links operators r => get >>= Rule.links operators (r.rule side o)
  | members receiver => get >>= Rule.members o.expression receiver
  | others r => get >>= Rule.others (r.rule side o)

end Routine

/-! ### Code -/

/-- The code of a routine: steps that leave an end of the tokens they are given, and calls. -/
inductive Code : Type → Type 1 where
  | done {α : Type} (v : α) : Code α
  | step {α : Type} (r : Rule α) [orderly : Rule.Orderly r] : Code α
  | call (r : Routine) : Code r.Value
  | seq {α β : Type} (c : Code β) (next : β → Code α) : Code α

namespace Code

instance : Monad Code where
  pure := done
  bind := seq

/-- The rule that some code is, with openers for the levels inside what it calls. -/
def denote {α : Type} (side : Associativity) (o : Openers) : Code α → Rule α
  | done v => pure v
  | step r => r
  | call r => r.rule side o
  | seq c next => c.denote side o >>= fun v => (next v).denote side o

def after? {α : Type} (c : Char) (code : Code α) : Code (Option α) := do
  if ← step (Rule.accepts (.mark c)) then return some (← code) else return none

def commaSeparated (item : Routine) : Code (List item.Value) := do
  let first ← call item
  return first :: (← call (.others item))

def parameters : Code (List Text) := do
  if ← step (Rule.accepts (.mark ')')) then
    return []
  else
    let names ← commaSeparated (.part .name)
    step (discard (Rule.demand (.mark ')') .unclosedParameters))
    return names

def item : Code Item := do
  if ← step (Rule.accepts (.keyword .LET)) then
    return .field (← call (.construct .field))
  else if ← step (Rule.accepts (.keyword .DEF)) then
    return .method (← call (.construct .method))
  else
    step Rule.unexpected

def assignment : Code Stmt := do
  let receiver ← call (.construct .expression)
  match ← after? '=' (call (.construct .expression)) with
  | some value =>
    step Rule.semicolon
    return .assignment receiver value
  | none =>
    step Rule.semicolon
    return .expression receiver

def chain (side : Associativity) (operators : List Pattern) (r : Routine)
    (combine : Text → r.Value → r.Value → r.Value) : Code r.Value := do
  let first ← call r
  return side.fold combine first (← call (.links operators r))

def level (side : Associativity) (l : Level) (c : Construct)
    (combine : Text → c.Value → c.Value → c.Value) : Code c.Value :=
  chain side (l.operators.map .operator) (.construct c) combine

def ofConstruct (side : Associativity) : (c : Construct) → Code c.Value
  | .source => do
    return .ofItems (← call .items)
  | .field => do
    let name ← step Rule.name
    let typeName ← after? ':' (step Rule.name)
    let value ← after? '=' (call (.construct .expression))
    step Rule.semicolon
    return { name, typeName, value }
  | .method => do
    let name ← step Rule.name
    step (discard (Rule.demand (.mark '(') .expectedParameters))
    let parameters ← parameters
    step (Rule.demandWord .DO)
    let body ← call (.block [.keyword .END])
    step Rule.closing
    return { name, parameters, body }
  | .statement => do
    if ← step (Rule.accepts (.keyword .LET)) then
      call (.construct .declaration)
    else if ← step (Rule.accepts (.keyword .IF)) then
      call (.construct .ifElse)
    else if ← step (Rule.accepts (.keyword .FOR)) then
      call (.construct .forIn)
    else if ← step (Rule.accepts (.keyword .WHILE)) then
      call (.construct .whileDo)
    else if ← step (Rule.accepts (.keyword .RETURN)) then
      call (.construct .returning)
    else
      assignment
  | .declaration => do
    let name ← step Rule.name
    let value ← after? '=' (call (.construct .expression))
    step Rule.semicolon
    return .declaration name value
  | .ifElse => do
    let condition ← call (.construct .expression)
    step (Rule.demandWord .DO)
    let thenBody ← call (.block [.keyword .ELSE, .keyword .END])
    let elseBody ←
      if ← step (Rule.accepts (.keyword .ELSE)) then call (.block [.keyword .END]) else pure []
    step Rule.closing
    return .ifElse condition thenBody elseBody
  | .forIn => do
    let name ← step Rule.name
    step (Rule.demandWord .IN)
    let value ← call (.construct .expression)
    step (Rule.demandWord .DO)
    let body ← call (.block [.keyword .END])
    step Rule.closing
    return .forIn name value body
  | .whileDo => do
    let condition ← call (.construct .expression)
    step (Rule.demandWord .DO)
    let body ← call (.block [.keyword .END])
    step Rule.closing
    return .whileDo condition body
  | .returning => do
    let value ← call (.construct .expression)
    step Rule.semicolon
    return .return value
  | .expression => call (.construct .logical)
  | .logical => level side .logical .equality Expr.binary
  | .equality => level side .equality .additive Expr.binary
  | .additive => level side .additive .multiplicative Expr.binary
  | .multiplicative => level side .multiplicative .secondary Expr.binary
  | .secondary => do
    let receiver ← call (.construct .primary)
    call (.members receiver)
  | .primary => do
    match ← step Rule.lead with
    | .constant value => return .literal value
    | .name name =>
      if ← step (Rule.accepts (.mark '(')) then
        return .call name (← call (.construct .arguments))
      else
        return .variable name
    | .group =>
      let value ← call (.construct .expression)
      step (discard (Rule.demand (.mark ')') .unclosedGroup))
      return .group value
  | .arguments => do
    if ← step (Rule.accepts (.mark ')')) then
      return []
    else
      let values ← commaSeparated (.construct .expression)
      if ← step (Rule.accepts (.mark ')')) then
        return values
      else
        step (Rule.refuse .unclosedArguments)

end Code

namespace Routine

def code (side : Associativity) : (r : Routine) → Code r.Value
  | construct c => .ofConstruct side c
  | block terminators => .call (statements terminators)
  | part (.construct c) => c.record <$> Code.call (construct c)
  | part (.block terminators) =>
    (fun body => .list (Stmt.records body)) <$> Code.call (block terminators)
  | part (.chain operators p) => .chain side operators (operand p) Record.binary
  | part (.check patterns) => .step (Rule.check patterns)
  | part (.accept patterns) => .step (Rule.accept? patterns)
  | part (.demand pattern kind) => .step (Rule.demand pattern kind)
  | part .name => .step Rule.name
  | part .semicolon => .step Rule.semicolon
  | operand p => p.record <$> Code.call (part p)
  | items => do
    if ← .step Rule.ended then
      return []
    else
      let first ← Code.item
      return first :: (← .call items)
  | statements terminators => do
    if ← .step (Rule.check terminators) then
      return []
    else if ← .step Rule.ended then
      .step (Rule.refuse (.unclosedBlock terminators))
    else
      let first ← .call (construct .statement)
      return first :: (← .call (statements terminators))
  | links operators r => do
    match ← .step (Rule.accept? operators) with
    | none => return []
    | some operator =>
      let next ← .call r
      return (operator.literal, next) :: (← .call (links operators r))
  | members receiver => do
    if ← .step (Rule.accepts (.mark '.')) then
      let name ← .step Rule.name
      if ← .step (Rule.accepts (.mark '(')) then
        let values ← .call (construct .arguments)
        .call (members (.invoke receiver name values))
      else
        .call (members (.member receiver name))
    else
      return receiver
  | others r => do
    if ← .step (Rule.accepts (.mark ',')) then
      let next ← .call r
      return next :: (← .call (others r))
    else
      return []

end Routine

/-! ### The code is the rule -/

/-- Openers of which the one for expressions takes a token, as all rules for expressions do. -/
class Openers.Advancing (o : Openers) : Prop where
  expression : Rule.Advances o.expression
  block : ∀ terminators, Rule.Orderly (o.block terminators)

namespace Openers

attribute [instance] Advancing.expression Advancing.block

variable {side : Associativity} {o : Openers}

instance [o.Advancing] : (o.body side).Advancing where
  expression := inferInstanceAs (Rule.Advances (Rule.logical side o.expression))
  block terminators :=
    inferInstanceAs (Rule.Orderly (Rule.blockOf (Rule.statementOf _ o.block) terminators))

instance [o.Advancing] (k : Nat) : ((body side)^[k] o).Advancing := by
  induction k generalizing o with
  | zero => assumption
  | succ k ih => exact ih

instance [o.Advancing] : Rule.Advances o.statement :=
  inferInstanceAs (Rule.Advances (Rule.statementOf o.expression o.block))

instance [o.Advancing] : Rule.Orderly o.source := by
  unfold source
  infer_instance

end Openers

namespace Construct

/-- A construct takes a token, if it is not a source, which may be empty. -/
lemma advances_reading {side : Associativity} {o : Openers} [o.Advancing] {c : Construct}
    (h : c ≠ source) : Rule.Advances (c.reading side o) := by
  cases c with
  | source => exact absurd rfl h
  | _ =>
    unfold reading
    infer_instance

instance {side : Associativity} {o : Openers} [o.Advancing] (c : Construct) :
    Rule.Orderly (c.reading side o) := by
  by_cases h : c = source
  · subst h
    exact inferInstanceAs (Rule.Orderly o.source)
  · exact (advances_reading h).toOrderly

end Construct

namespace Part

variable {side : Associativity} {o : Openers} [o.Advancing]

instance (p : Part) : Rule.Orderly (p.rule side o) := by
  induction p with
  | construct c =>
    rw [rule, ← c.record_map_reading]
    infer_instance
  | block terminators => exact inferInstanceAs (Rule.Orderly (_ <$> o.block terminators))
  | chain operators p ih => exact inferInstanceAs (Rule.Orderly (Rule.chain _ _ _ (_ <$> _)))
  | check patterns => exact inferInstanceAs (Rule.Orderly (Rule.check patterns))
  | accept patterns => exact inferInstanceAs (Rule.Orderly (Rule.accept? patterns))
  | demand pattern kind => exact inferInstanceAs (Rule.Orderly (Rule.demand pattern kind))
  | name => exact inferInstanceAs (Rule.Orderly Rule.name)
  | semicolon => exact inferInstanceAs (Rule.Orderly Rule.semicolon)

end Part

namespace Routine

variable {side : Associativity} {o : Openers} [o.Advancing]

instance (r : Routine) : Rule.Orderly (r.rule side o) := by
  induction r with
  | construct c => exact inferInstanceAs (Rule.Orderly (c.reading side o))
  | block terminators => exact inferInstanceAs (Rule.Orderly (o.block terminators))
  | part p => exact inferInstanceAs (Rule.Orderly (p.rule side o))
  | operand p => exact inferInstanceAs (Rule.Orderly (p.record <$> p.rule side o))
  | items =>
    exact inferInstanceAs (Rule.Orderly (get >>= Rule.items (Rule.item o.expression o.block)))
  | statements terminators => exact inferInstanceAs (Rule.Orderly (Rule.blockOf o.statement _))
  | links operators r ih =>
    exact inferInstanceAs (Rule.Orderly (get >>= Rule.links operators (r.rule side o)))
  | members receiver =>
    exact inferInstanceAs (Rule.Orderly (get >>= Rule.members o.expression receiver))
  | others r ih => exact inferInstanceAs (Rule.Orderly (get >>= Rule.others (r.rule side o)))

end Routine

namespace Code

variable {α β : Type} {side : Associativity} {o : Openers}

@[simp] lemma denote_pure (v : α) : (pure v : Code α).denote side o = pure v := rfl

@[simp] lemma denote_step (r : Rule α) [Rule.Orderly r] : (step r).denote side o = r := rfl

@[simp] lemma denote_call (r : Routine) : (call r).denote side o = r.rule side o := rfl

@[simp] lemma denote_bind (c : Code β) (next : β → Code α) :
    (c >>= next).denote side o = c.denote side o >>= fun v => (next v).denote side o := rfl

@[simp] lemma denote_ite (p : Prop) [Decidable p] (c d : Code α) :
    (if p then c else d).denote side o = if p then c.denote side o else d.denote side o := by
  split <;> rfl

@[simp] lemma denote_after? (c : Char) (code : Code α) :
    (after? c code).denote side o = Rule.after? c (code.denote side o) := by
  simp [after?, Rule.after?]

@[simp] lemma denote_commaSeparated (r : Routine) :
    (commaSeparated r).denote side o = Rule.commaSeparated (r.rule side o) := by
  rw [Rule.commaSeparated_eq]
  rfl

@[simp] lemma denote_parameters : parameters.denote side o = Rule.parameters := by
  simp only [parameters, denote_bind, denote_ite]
  rfl

@[simp] lemma denote_item : item.denote side o = Rule.item o.expression o.block := by
  simp only [item, denote_bind, denote_ite]
  rfl

@[simp] lemma denote_assignment : assignment.denote side o = Rule.assignment o.expression := by
  simp only [assignment, denote_bind, denote_after?]
  refine bind_congr fun receiver => bind_congr fun value => ?_
  cases value <;> rfl

@[simp] lemma denote_chain (operators : List Pattern) (r : Routine)
    (combine : Text → r.Value → r.Value → r.Value) :
    (chain side operators r combine).denote side o =
      Rule.chain side combine operators (r.rule side o) := by
  rw [Rule.chain_eq]
  rfl

lemma denote_ofConstruct (c : Construct) :
    (ofConstruct side c).denote side o =
      (Routine.construct c).rule side ((Openers.body side)^[(Routine.construct c).opens] o) := by
  -- construct by construct; the steps of the code are those of the rule, in the same order
  cases c with
  | field | declaration =>
    simp only [ofConstruct, denote_bind, denote_after?]
    rfl
  | method =>
    simp only [ofConstruct, denote_bind, denote_parameters]
    rfl
  | statement =>
    simp only [ofConstruct, denote_bind, denote_ite, denote_assignment]
    rfl
  | ifElse | arguments =>
    simp only [ofConstruct, denote_bind, denote_ite]
    rfl
  | logical | equality | additive | multiplicative =>
    exact denote_chain _ _ _
  | primary =>
    rw [Routine.rule, Construct.reading, Rule.primary_eq]
    refine bind_congr fun lead => ?_
    cases lead with
    | name name =>
      simp only [denote_bind, denote_ite]
      rfl
    | _ => rfl
  | _ => rfl

end Code

namespace Routine

variable {side : Associativity} {o : Openers} [o.Advancing]

lemma denote_code (r : Routine) :
    (r.code side).denote side o = r.rule side ((Openers.body side)^[r.opens] o) := by
  cases r with
  | construct c => exact Code.denote_ofConstruct c
  | block terminators => rfl
  | part p =>
    cases p with
    | construct c => exact c.record_map_reading side o
    | chain operators p => exact Code.denote_chain _ _ _
    | _ => rfl
  | operand p => rfl
  -- the loops: a round of the rule is the body of the code, and the rest of it a call
  | items =>
    funext ts
    rcases ts with _ | ⟨t, ts⟩
    · rfl
    · rw [rule, Rule.items_get_cons]
      simp only [code, Code.denote_bind, Code.denote_ite, Code.denote_item]
      rfl
  | statements terminators =>
    funext ts
    rcases ts with _ | ⟨t, ts⟩
    · rfl
    · rw [rule, Rule.blockOf_cons]
      simp only [code, Code.denote_bind, Code.denote_ite]
      have hcheck : Rule.check terminators (t :: ts) =
          .ok (terminators.any (·.accepts t)) (t :: ts) := rfl
      rw [Code.denote_step, Rule.bind_ok hcheck]
      split
      · rfl
      · rfl
  | links operators r =>
    rw [rule, Rule.links_get]
    refine bind_congr fun found => ?_
    cases found <;> rfl
  | members receiver =>
    rw [rule, Rule.members_get]
    simp only [code, Code.denote_bind, Code.denote_ite]
    rfl
  | others r =>
    rw [rule, Rule.others_get]
    simp only [code, Code.denote_bind, Code.denote_ite]
    rfl

end Routine

end Pebble

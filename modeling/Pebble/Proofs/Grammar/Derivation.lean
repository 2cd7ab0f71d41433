import Mathlib.Order.Basic
import Pebble.Grammar.Source
import Pebble.Proofs.Grammar.Terminal

/-!
The grammar, as what each of its symbols derives.

A phrase relates tokens to the value they stand for. Each production is a constructor, so that a
derivation shows which one is used where. Expressions and blocks are the symbols that can stand
inside themselves; they are indexed by how many levels, their own included, may be open at once.
What a constant stands for is a parameter.
-/

namespace Pebble.Grammar

/-- What a symbol of the grammar derives: tokens, and the value they stand for. -/
abbrev Phrase (α : Type) := List Token → α → Prop

variable {α : Type}

inductive Name : Phrase Text
  | name {t : Token} : t.terminal = .name → Name [t] t.literal

/-- `c item` -/
inductive After (c : Terminal) (item : Phrase α) : Phrase α
  | after {t : Token} {ts : List Token} {v : α} :
      t.terminal = c → item ts v → After c item (t :: ts) v

/-- `item?` -/
inductive Optional (item : Phrase α) : Phrase (Option α)
  | absent : Optional item [] none
  | present {ts : List Token} {v : α} : item ts v → Optional item ts (some v)

/-- `item*` -/
inductive Many (item : Phrase α) : Phrase (List α)
  | nil : Many item [] []
  | cons {ts us : List Token} {v : α} {vs : List α} :
      item ts v → Many item us vs → Many item (ts ++ us) (v :: vs)

/-- `item ( ',' item )*` -/
inductive Separated (item : Phrase α) : Phrase (List α)
  | separated {ts us : List Token} {v : α} {vs : List α} :
      item ts v → Many (After (.mark ',') item) us vs → Separated item (ts ++ us) (v :: vs)

/-- `( item ( ',' item )* )? ')'`, the rest of a list in parentheses after the opening one. -/
inductive Listed (item : Phrase α) : Phrase (List α)
  | empty {r : Token} : r.terminal = .mark ')' → Listed item [r] []
  | items {ts : List Token} {vs : List α} {r : Token} :
      Separated item ts vs → r.terminal = .mark ')' → Listed item (ts ++ [r]) vs

/-! ### Expressions -/

def Level.terminals (level : Level) : List Terminal := level.operators.map .operator

lemma operator_of_mem_terminals {level : Level} {t : Token}
    (h : t.terminal ∈ Level.terminals level) :
    t.terminal = .operator t.literal ∧ t.literal ∈ level.operators := by
  obtain ⟨literal, hmem, hterminal⟩ := List.mem_map.1 h
  obtain ⟨kind, text, offset⟩ := t
  cases kind <;> simp_all [Token.terminal]
  revert hterminal
  cases Keyword.ofText? text <;> simp

/-- `primary`, with `inner` for the expressions in it. -/
inductive Primary (constant : Token → Value → Prop) (inner : Phrase Expr) : Phrase Expr
  | constant {t : Token} {v : Value} : constant t v → Primary constant inner [t] (.literal v)
  | variable {t : Token} :
      t.terminal = .name → Primary constant inner [t] (.variable t.literal)
  | call {t l : Token} {ts : List Token} {args : List Expr} :
      t.terminal = .name → l.terminal = .mark '(' → Listed inner ts args →
      Primary constant inner (t :: l :: ts) (.call t.literal args)
  | group {l r : Token} {ts : List Token} {e : Expr} :
      l.terminal = .mark '(' → inner ts e → r.terminal = .mark ')' →
      Primary constant inner (l :: (ts ++ [r])) (.group e)

/-- `secondary`: members and calls nest to the left. -/
inductive Secondary (constant : Token → Value → Prop) (inner : Phrase Expr) : Phrase Expr
  | primary {ts : List Token} {e : Expr} :
      Primary constant inner ts e → Secondary constant inner ts e
  | member {d n : Token} {ts : List Token} {e : Expr} :
      Secondary constant inner ts e → d.terminal = .mark '.' → n.terminal = .name →
      Secondary constant inner (ts ++ [d, n]) (.member e n.literal)
  | invoke {d n l : Token} {ts us : List Token} {e : Expr} {args : List Expr} :
      Secondary constant inner ts e → d.terminal = .mark '.' → n.terminal = .name →
      l.terminal = .mark '(' → Listed inner us args →
      Secondary constant inner (ts ++ d :: n :: l :: us) (.invoke e n.literal args)

/-- `operand ( operator operand )*` for the operators of one level. Folded to the right, the first
operator has all others in its right operand; to the left, the last one has them in its left. -/
inductive Chain (side : Associativity) (level : Level) (operand : Phrase Expr) : Phrase Expr
  | operand {ts : List Token} {e : Expr} : operand ts e → Chain side level operand ts e
  | right {t : Token} {ts us : List Token} {e f : Expr} :
      side = .right → operand ts e → t.terminal ∈ Level.terminals level →
      Chain side level operand us f →
      Chain side level operand (ts ++ t :: us) (.binary t.literal e f)
  | left {t : Token} {ts us : List Token} {e f : Expr} :
      side = .left → Chain side level operand ts e → t.terminal ∈ Level.terminals level →
      operand us f → Chain side level operand (ts ++ t :: us) (.binary t.literal e f)

section

variable (constant : Token → Value → Prop) (side : Associativity)

def Multiplicative (inner : Phrase Expr) : Phrase Expr :=
  Chain side .multiplicative (Secondary constant inner)

def Additive (inner : Phrase Expr) : Phrase Expr :=
  Chain side .additive (Multiplicative constant side inner)

def Equality (inner : Phrase Expr) : Phrase Expr :=
  Chain side .equality (Additive constant side inner)

def Logical (inner : Phrase Expr) : Phrase Expr :=
  Chain side .logical (Equality constant side inner)

/-- `expression`, with at most so many levels open at once. -/
def Expression : (levels : Nat) → Phrase Expr
  | 0 => fun _ _ => False
  | levels + 1 => Logical constant side (Expression levels)

end

/-! ### Statements -/

/-- `( ELSE statement* )?` -/
inductive Else (block : Phrase (List Stmt)) : Phrase (List Stmt)
  | absent : Else block [] []
  | present {t : Token} {ts : List Token} {body : List Stmt} :
      t.terminal = .word .ELSE → block ts body → Else block (t :: ts) body

/-- `statement`, with `expr` and `block` for the expressions and blocks in it. -/
inductive Statement (expr : Phrase Expr) (block : Phrase (List Stmt)) : Phrase Stmt
  | declaration {t n s : Token} {ts : List Token} {value : Option Expr} :
      t.terminal = .word .LET → n.terminal = .name →
      Optional (After (.mark '=') expr) ts value → s.terminal = .mark ';' →
      Statement expr block (t :: n :: (ts ++ [s])) (.declaration n.literal value)
  | ifElse {t d e : Token} {ts us vs : List Token} {c : Expr} {body other : List Stmt} :
      t.terminal = .word .IF → expr ts c → d.terminal = .word .DO → block us body →
      Else block vs other → e.terminal = .word .END →
      Statement expr block (t :: (ts ++ d :: (us ++ (vs ++ [e])))) (.ifElse c body other)
  | forIn {t n i d e : Token} {ts us : List Token} {v : Expr} {body : List Stmt} :
      t.terminal = .word .FOR → n.terminal = .name → i.terminal = .word .IN → expr ts v →
      d.terminal = .word .DO → block us body → e.terminal = .word .END →
      Statement expr block (t :: n :: i :: (ts ++ d :: (us ++ [e]))) (.forIn n.literal v body)
  | whileDo {t d e : Token} {ts us : List Token} {c : Expr} {body : List Stmt} :
      t.terminal = .word .WHILE → expr ts c → d.terminal = .word .DO → block us body →
      e.terminal = .word .END →
      Statement expr block (t :: (ts ++ d :: (us ++ [e]))) (.whileDo c body)
  | returning {t s : Token} {ts : List Token} {v : Expr} :
      t.terminal = .word .RETURN → expr ts v → s.terminal = .mark ';' →
      Statement expr block (t :: (ts ++ [s])) (.return v)
  | expression {s : Token} {ts : List Token} {v : Expr} :
      expr ts v → s.terminal = .mark ';' → Statement expr block (ts ++ [s]) (.expression v)
  | assignment {q s : Token} {ts us : List Token} {e v : Expr} :
      expr ts e → q.terminal = .mark '=' → expr us v → s.terminal = .mark ';' →
      Statement expr block (ts ++ q :: (us ++ [s])) (.assignment e v)

/-- `statement*`, with at most so many levels open at once. -/
def Block (constant : Token → Value → Prop) (side : Associativity) :
    (levels : Nat) → Phrase (List Stmt)
  | 0 => fun _ _ => False
  | levels + 1 =>
    Many (Statement (Expression constant side levels) (Block constant side levels))

/-! ### Sources -/

inductive Field (expr : Phrase Expr) : Phrase Pebble.Field
  | field {t n s : Token} {ts us : List Token} {typeName : Option Text} {value : Option Expr} :
      t.terminal = .word .LET → n.terminal = .name →
      Optional (After (.mark ':') Name) ts typeName →
      Optional (After (.mark '=') expr) us value → s.terminal = .mark ';' →
      Field expr (t :: n :: (ts ++ (us ++ [s]))) ⟨n.literal, typeName, value⟩

inductive Method (block : Phrase (List Stmt)) : Phrase Pebble.Method
  | method {t n l d e : Token} {ts us : List Token} {parameters : List Text}
      {body : List Stmt} :
      t.terminal = .word .DEF → n.terminal = .name → l.terminal = .mark '(' →
      Listed Name ts parameters → d.terminal = .word .DO → block us body →
      e.terminal = .word .END →
      Method block (t :: n :: l :: (ts ++ d :: (us ++ [e]))) ⟨n.literal, parameters, body⟩

/-- `source`: fields and methods in any order. -/
inductive Source (expr : Phrase Expr) (block : Phrase (List Stmt)) : Phrase Pebble.Source
  | empty : Source expr block [] ⟨[], []⟩
  | field {ts us : List Token} {f : Pebble.Field} {s : Pebble.Source} :
      Field expr ts f → Source expr block us s →
      Source expr block (ts ++ us) { s with fields := f :: s.fields }
  | method {ts us : List Token} {m : Pebble.Method} {s : Pebble.Source} :
      Method block ts m → Source expr block us s →
      Source expr block (ts ++ us) { s with methods := m :: s.methods }

/-- A whole source, derived with at most so many levels open at once. -/
def Program (constant : Token → Value → Prop) (side : Associativity) (levels : Nat) :
    Phrase Pebble.Source :=
  Source (Expression constant side levels) (Block constant side levels)

/-- A token of a constant, whatever it stands for. -/
def IsConstant (t : Token) (_ : Value) : Prop := t.terminal.isConstant

/-- Whether tokens are derived from `source` with at most so many levels open at once. The terminals
of the tokens decide it. -/
def DerivableWithin (levels : Nat) (tokens : List Token) : Prop :=
  ∃ side source, Program IsConstant side levels tokens source

def Derivable (tokens : List Token) : Prop := ∃ levels, DerivableWithin levels tokens

/-! ### What derives more

Each production keeps the order of the phrases it is made of, so that more levels and more
constants derive more.
-/

section

variable {p q : Phrase α}

lemma After.mono {c : Terminal} (h : p ≤ q) : After c p ≤ After c q := by
  rintro _ _ ⟨ht, hp⟩
  exact .after ht (h _ _ hp)

lemma Optional.mono (h : p ≤ q) : Optional p ≤ Optional q := by
  rintro _ _ (_ | hp)
  · exact .absent
  · exact .present (h _ _ hp)

lemma Many.mono (h : p ≤ q) : Many p ≤ Many q := by
  intro ts vs hp
  induction hp with
  | nil => exact .nil
  | cons hv _ ih => exact .cons (h _ _ hv) ih

lemma Separated.mono (h : p ≤ q) : Separated p ≤ Separated q := by
  rintro _ _ ⟨hv, hvs⟩
  exact .separated (h _ _ hv) (Many.mono (After.mono h) _ _ hvs)

lemma Listed.mono (h : p ≤ q) : Listed p ≤ Listed q := by
  rintro _ _ (hr | ⟨hvs, hr⟩)
  · exact .empty hr
  · exact .items (Separated.mono h _ _ hvs) hr

end

section

variable {constant constant' : Token → Value → Prop} {inner inner' : Phrase Expr}
  {block block' : Phrase (List Stmt)} {side : Associativity}

lemma Primary.mono (hc : constant ≤ constant') (hi : inner ≤ inner') :
    Primary constant inner ≤ Primary constant' inner' := by
  rintro _ _ (hv | ht | ⟨ht, hl, has⟩ | ⟨hl, he, hr⟩)
  · exact .constant (hc _ _ hv)
  · exact .variable ht
  · exact .call ht hl (Listed.mono hi _ _ has)
  · exact .group hl (hi _ _ he) hr

lemma Secondary.mono (hc : constant ≤ constant') (hi : inner ≤ inner') :
    Secondary constant inner ≤ Secondary constant' inner' := by
  intro ts e h
  induction h with
  | primary hp => exact .primary (Primary.mono hc hi _ _ hp)
  | member _ hd hn ih => exact .member ih hd hn
  | invoke _ hd hn hl has ih => exact .invoke ih hd hn hl (Listed.mono hi _ _ has)

lemma Chain.mono {level : Level} {operand operand' : Phrase Expr} (h : operand ≤ operand') :
    Chain side level operand ≤ Chain side level operand' := by
  intro ts e he
  induction he with
  | operand he => exact .operand (h _ _ he)
  | right hs he ht _ ih => exact .right hs (h _ _ he) ht ih
  | left hs _ ht hf ih => exact .left hs ih ht (h _ _ hf)

lemma Logical.mono (hc : constant ≤ constant') (hi : inner ≤ inner') :
    Logical constant side inner ≤ Logical constant' side inner' :=
  Chain.mono (Chain.mono (Chain.mono (Chain.mono (Secondary.mono hc hi))))

lemma Expression.mono (hc : constant ≤ constant') {m n : Nat} (h : m ≤ n) :
    Expression constant side m ≤ Expression constant' side n := by
  induction m generalizing n with
  | zero => exact fun _ _ => False.elim
  | succ m ih =>
    obtain ⟨n, rfl⟩ : ∃ k, n = k + 1 := ⟨n - 1, by omega⟩
    exact Logical.mono hc (ih (by omega))

lemma Else.mono (h : block ≤ block') : Else block ≤ Else block' := by
  rintro _ _ (_ | ⟨ht, hb⟩)
  · exact .absent
  · exact .present ht (h _ _ hb)

lemma Statement.mono (hi : inner ≤ inner') (hb : block ≤ block') :
    Statement inner block ≤ Statement inner' block' := by
  intro ts v h
  cases h with
  | declaration ht hn hv hs =>
    exact .declaration ht hn (Optional.mono (After.mono hi) _ _ hv) hs
  | ifElse ht hc hd hbody helse he =>
    exact .ifElse ht (hi _ _ hc) hd (hb _ _ hbody) (Else.mono hb _ _ helse) he
  | forIn ht hn hin hv hd hbody he => exact .forIn ht hn hin (hi _ _ hv) hd (hb _ _ hbody) he
  | whileDo ht hc hd hbody he => exact .whileDo ht (hi _ _ hc) hd (hb _ _ hbody) he
  | returning ht hv hs => exact .returning ht (hi _ _ hv) hs
  | expression hv hs => exact .expression (hi _ _ hv) hs
  | assignment he hq hv hs => exact .assignment (hi _ _ he) hq (hi _ _ hv) hs

lemma Block.mono (hc : constant ≤ constant') {m n : Nat} (h : m ≤ n) :
    Block constant side m ≤ Block constant' side n := by
  induction m generalizing n with
  | zero => exact fun _ _ => False.elim
  | succ m ih =>
    obtain ⟨n, rfl⟩ : ∃ k, n = k + 1 := ⟨n - 1, by omega⟩
    exact Many.mono (Statement.mono (Expression.mono hc (by omega)) (ih (by omega)))

lemma Field.mono (hi : inner ≤ inner') : Field inner ≤ Field inner' := by
  rintro _ _ ⟨ht, hn, hty, hv, hs⟩
  exact .field ht hn hty (Optional.mono (After.mono hi) _ _ hv) hs

lemma Method.mono (hb : block ≤ block') : Method block ≤ Method block' := by
  rintro _ _ ⟨hm, hn, hl, hps, hd, hbody, he⟩
  exact .method hm hn hl hps hd (hb _ _ hbody) he

lemma Source.mono (hi : inner ≤ inner') (hb : block ≤ block') :
    Source inner block ≤ Source inner' block' := by
  intro ts s h
  induction h with
  | empty => exact .empty
  | field hf _ ih => exact .field (Field.mono hi _ _ hf) ih
  | method hm _ ih => exact .method (Method.mono hb _ _ hm) ih

end

/-! ### Flat forms

A chain is its first operand and a list of links, folded; a source is a list of items. The rules
read these lists.
-/

/-- `operator operand`, for the operators of one level. -/
inductive Link (level : Level) (operand : Phrase Expr) : Phrase (Text × Expr)
  | link {t : Token} {ts : List Token} {e : Expr} :
      t.terminal ∈ Level.terminals level → operand ts e →
      Link level operand (t :: ts) (t.literal, e)

/-- `field | method` -/
inductive Item (expr : Phrase Expr) (block : Phrase (List Stmt)) : Phrase Pebble.Item
  | field {ts : List Token} {f : Pebble.Field} : Field expr ts f → Item expr block ts (.field f)
  | method {ts : List Token} {m : Pebble.Method} :
      Method block ts m → Item expr block ts (.method m)

section

variable {side : Associativity} {level : Level} {operand : Phrase Expr} {ts us : List Token}

/-- A chain to which links are added on the right, when they fold to the left. -/
lemma Chain.foldLeft {e : Expr} {links : List (Text × Expr)} (he : Chain .left level operand ts e)
    (h : Many (Link level operand) us links) :
    Chain .left level operand (ts ++ us) (Associativity.foldLeft .binary e links) := by
  induction h generalizing ts e with
  | nil => simpa [Associativity.foldLeft] using he
  | cons hv _ ih =>
    obtain ⟨ht, hf⟩ := hv
    simpa [Associativity.foldLeft] using ih (.left rfl he ht hf)

lemma Chain.foldRight {e : Expr} {links : List (Text × Expr)} (he : operand ts e)
    (h : Many (Link level operand) us links) :
    Chain .right level operand (ts ++ us) (Associativity.foldRight .binary e links) := by
  induction h generalizing ts e with
  | nil => simpa [Associativity.foldRight] using Chain.operand he
  | cons hv _ ih =>
    obtain ⟨ht, hf⟩ := hv
    simpa [Associativity.foldRight] using Chain.right rfl he ht (ih hf)

lemma Chain.fold {e : Expr} {links : List (Text × Expr)} (he : operand ts e)
    (h : Many (Link level operand) us links) :
    Chain side level operand (ts ++ us) (side.fold .binary e links) := by
  cases side with
  | right => exact Chain.foldRight he h
  | left => exact Chain.foldLeft (.operand he) h

lemma Many.snoc {α : Type} {p : Phrase α} {v : α} {vs : List α} (h : Many p ts vs)
    (hv : p us v) : Many p (ts ++ us) (vs ++ [v]) := by
  induction h with
  | nil => simpa using Many.cons hv .nil
  | cons hw _ ih => simpa using Many.cons hw ih

lemma foldLeft_append {α : Type} (combine : Text → α → α → α) (first : α)
    (links others : List (Text × α)) :
    Associativity.foldLeft combine first (links ++ others) =
      Associativity.foldLeft combine (Associativity.foldLeft combine first links) others := by
  induction links generalizing first with
  | nil => rfl
  | cons link links ih => exact ih _

/-- Every chain is the fold of its first operand and its links. -/
lemma Chain.flat {e : Expr} (h : Chain side level operand ts e) :
    ∃ us vs first links, ts = us ++ vs ∧ operand us first ∧
      Many (Link level operand) vs links ∧ side.fold .binary first links = e := by
  induction h with
  | operand he => exact ⟨_, [], _, [], by simp, he, .nil, by cases side <;> rfl⟩
  | right hs he ht _ ih =>
    subst hs
    obtain ⟨us, vs, first, links, rfl, hfirst, hlinks, rfl⟩ := ih
    exact ⟨_, _, _, _, rfl, he, .cons (.link ht hfirst) hlinks, rfl⟩
  | left hs _ ht hf ih =>
    subst hs
    obtain ⟨us, vs, first, links, rfl, hfirst, hlinks, rfl⟩ := ih
    refine ⟨us, _, first, _, List.append_assoc .., hfirst, hlinks.snoc (.link ht hf), ?_⟩
    exact foldLeft_append _ _ _ _

variable {expr : Phrase Expr} {block : Phrase (List Stmt)}

lemma Source.ofItems {items : List Pebble.Item} (h : Many (Item expr block) ts items) :
    Source expr block ts (.ofItems items) := by
  induction h with
  | nil => exact .empty
  | cons hv _ ih =>
    cases hv with
    | field hf => exact .field hf ih
    | method hm => exact .method hm ih

/-- Every source consists of its items. -/
lemma Source.flat {s : Pebble.Source} (h : Source expr block ts s) :
    ∃ items, Many (Item expr block) ts items ∧ Pebble.Source.ofItems items = s := by
  induction h with
  | empty => exact ⟨[], .nil, rfl⟩
  | field hf _ ih =>
    obtain ⟨items, hitems, rfl⟩ := ih
    exact ⟨_, .cons (.field hf) hitems, rfl⟩
  | method hm _ ih =>
    obtain ⟨items, hitems, rfl⟩ := ih
    exact ⟨_, .cons (.method hm) hitems, rfl⟩

end

end Pebble.Grammar

import Pebble.Proofs.Grammar.Derivation
import Pebble.Proofs.Tree.Proper

/-!
Short chains: the grammar in which no chain has more than one operator. It derives less than the
grammar does, and just the tokens that stand for one tree to whatever side chains fold.
-/

namespace Pebble.Grammar

variable {α : Type} {constant : Token → Value → Prop}

/-- `operand ( operator operand )?`, for the operators of one level. -/
inductive Short (level : Level) (operand : Phrase Expr) : Phrase Expr
  | operand {ts : List Token} {e : Expr} : operand ts e → Short level operand ts e
  | binary {t : Token} {ts us : List Token} {e f : Expr} :
      operand ts e → t.terminal ∈ Level.terminals level → operand us f →
      Short level operand (ts ++ t :: us) (.binary t.literal e f)

/-- `expression` with short chains, with at most so many levels open at once. -/
def ShortExpression (constant : Token → Value → Prop) : (levels : Nat) → Phrase Expr
  | 0 => fun _ _ => False
  | levels + 1 =>
    Short .logical <| Short .equality <| Short .additive <| Short .multiplicative <|
      Secondary constant (ShortExpression constant levels)

def ShortBlock (constant : Token → Value → Prop) : (levels : Nat) → Phrase (List Stmt)
  | 0 => fun _ _ => False
  | levels + 1 => Many (Statement (ShortExpression constant levels) (ShortBlock constant levels))

abbrev ShortStatement (constant : Token → Value → Prop) (levels : Nat) : Phrase Stmt :=
  Statement (ShortExpression constant levels) (ShortBlock constant levels)

abbrev ShortProgram (constant : Token → Value → Prop) (levels : Nat) : Phrase Pebble.Source :=
  Source (ShortExpression constant levels) (ShortBlock constant levels)

def Derives (p : Phrase α) (ts : List Token) : Prop := ∃ v, p ts v

/-! ### What is derived with short chains is derived -/

lemma short_le (side : Associativity) {level : Level} {p q : Phrase Expr} (h : p ≤ q) :
    Short level p ≤ Chain side level q := by
  rintro _ _ (he | ⟨he, ht, hf⟩)
  · exact .operand (h _ _ he)
  · cases side with
    | right => exact .right rfl (h _ _ he) ht (.operand (h _ _ hf))
    | left => exact .left rfl (.operand (h _ _ he)) ht (h _ _ hf)

lemma shortExpression_le (constant : Token → Value → Prop) (side : Associativity)
    (levels : Nat) : ShortExpression constant levels ≤ Expression constant side levels := by
  induction levels with
  | zero => exact fun _ _ => False.elim
  | succ levels ih =>
    exact short_le side (short_le side (short_le side (short_le side (Secondary.mono le_rfl ih))))

lemma shortBlock_le (constant : Token → Value → Prop) (side : Associativity) (levels : Nat) :
    ShortBlock constant levels ≤ Block constant side levels := by
  induction levels with
  | zero => exact fun _ _ => False.elim
  | succ levels ih => exact Many.mono (Statement.mono (shortExpression_le constant side levels) ih)

lemma shortStatement_le (constant : Token → Value → Prop) (side : Associativity) (levels : Nat) :
    ShortStatement constant levels ≤
      Statement (Expression constant side levels) (Block constant side levels) :=
  Statement.mono (shortExpression_le constant side levels) (shortBlock_le constant side levels)

lemma shortProgram_le (constant : Token → Value → Prop) (side : Associativity) (levels : Nat) :
    ShortProgram constant levels ≤ Program constant side levels :=
  Source.mono (shortExpression_le constant side levels) (shortBlock_le constant side levels)

/-! ### What stands for one tree to both sides

Of two derivations with one tree, the first one with chains that fold to the right and the second
one to the left, nothing is asked about the tokens of the second one. The tree alone carries over
what it shows about chains.
-/

/-- Whether a symbol derives a value from some tokens. -/
def Yields (q : Phrase α) (v : α) : Prop := ∃ us, q us v

/-- What `p` derives is derived by `r` from the same tokens, if its value has a property. -/
def Within (p : Phrase α) (Q : α → Prop) (r : Phrase α) : Prop := ∀ ts v, p ts v → Q v → r ts v

section

variable {p q r : Phrase α} {Q : α → Prop}

lemma Yields.after {c : Terminal} {v : α} (h : Yields (After c q) v) : Yields q v := by
  obtain ⟨_, _, hv⟩ := h
  exact ⟨_, hv⟩

lemma Yields.optional {x : Option α} (h : Yields (Optional q) x) : ∀ v ∈ x, Yields q v := by
  obtain ⟨_, _ | hv⟩ := h
  · nofun
  · rintro _ ⟨⟩
    exact ⟨_, hv⟩

lemma Yields.many {vs : List α} (h : Yields (Many q) vs) : ∀ v ∈ vs, Yields q v := by
  obtain ⟨_, hvs⟩ := h
  induction hvs with
  | nil => nofun
  | cons hv _ ih => exact List.forall_mem_cons.mpr ⟨⟨_, hv⟩, ih⟩

lemma Yields.listed {vs : List α} (h : Yields (Listed q) vs) : ∀ v ∈ vs, Yields q v := by
  obtain ⟨_, _ | ⟨⟨hv, hvs⟩, _⟩⟩ := h
  · nofun
  · exact List.forall_mem_cons.mpr ⟨⟨_, hv⟩, fun w hw => (Yields.many ⟨_, hvs⟩ w hw).after⟩

lemma Within.after (h : Within p Q r) {c : Terminal} : Within (After c p) Q (After c r) := by
  rintro _ _ ⟨ht, hv⟩ hQ
  exact .after ht (h _ _ hv hQ)

lemma Within.optional (h : Within p Q r) :
    Within (Optional p) (fun x => ∀ v ∈ x, Q v) (Optional r) := by
  rintro _ _ (_ | hv) hQ
  · exact .absent
  · exact .present (h _ _ hv (hQ _ rfl))

lemma Within.many (h : Within p Q r) : Within (Many p) (fun vs => ∀ v ∈ vs, Q v) (Many r) := by
  intro ts vs hvs hQ
  induction hvs with
  | nil => exact .nil
  | cons hv _ ih =>
    obtain ⟨hfirst, hothers⟩ := List.forall_mem_cons.mp hQ
    exact .cons (h _ _ hv hfirst) (ih hothers)

lemma Within.listed (h : Within p Q r) :
    Within (Listed p) (fun vs => ∀ v ∈ vs, Q v) (Listed r) := by
  rintro _ _ (hr | ⟨⟨hv, hvs⟩, hr⟩) hQ
  · exact .empty hr
  · obtain ⟨hfirst, hothers⟩ := List.forall_mem_cons.mp hQ
    exact .items (.separated (h _ _ hv hfirst) (h.after.many _ _ hvs hothers)) hr

end

section

variable {p q r : Phrase Expr}

/-- Whether the parts of an expression are yielded where `secondary` has them. -/
def Secondary.Parts (constant : Token → Value → Prop) (q : Phrase Expr) : Expr → Prop
  | .group inner => Yields q inner
  | .call _ arguments => ∀ v ∈ arguments, Yields q v
  | .member receiver _ => Yields (Secondary constant q) receiver
  | .invoke receiver _ arguments =>
    Yields (Secondary constant q) receiver ∧ ∀ v ∈ arguments, Yields q v
  | _ => True

lemma Yields.secondary {e : Expr} (h : Yields (Secondary constant q) e) :
    Secondary.Parts constant q e := by
  obtain ⟨_, (_ | _ | ⟨_, _, hes⟩ | ⟨_, he, _⟩) | ⟨he, _, _⟩ | ⟨he, _, _, _, hes⟩⟩ := h
  · trivial
  · trivial
  · exact Yields.listed ⟨_, hes⟩
  · exact ⟨_, he⟩
  · exact ⟨_, he⟩
  · exact ⟨⟨_, he⟩, Yields.listed ⟨_, hes⟩⟩

lemma within_secondary (h : Within p (Yields q) r) :
    Within (Secondary constant p) (Yields (Secondary constant q)) (Secondary constant r) := by
  intro ts e he
  induction he with
  | primary hp =>
    -- The tokens decide which primary the other reading has, so its parts are the same tokens.
    intro hq
    have hparts := hq.secondary
    obtain hv | ht | ⟨ht, hl, hes⟩ | ⟨hl, he, hr⟩ := hp
    · exact .primary (.constant hv)
    · exact .primary (.variable ht)
    · exact .primary (.call ht hl (h.listed _ _ hes hparts))
    · exact .primary (.group hl (h _ _ he hparts) hr)
  | member _ hd hn ih => exact fun hq => .member (ih hq.secondary) hd hn
  | invoke _ hd hn hl hes ih =>
    intro hq
    obtain ⟨hreceiver, harguments⟩ := hq.secondary
    exact .invoke (ih hreceiver) hd hn hl (h.listed _ _ hes harguments)

/-- Phrases of expressions that bind at least so tightly: `p` to the right, `q` to the left, and `r`
with short chains. -/
structure Operands (rank : Nat) (p q r : Phrase Expr) : Prop where
  within : Within p (Yields q) r
  right {ts : List Token} {e : Expr} : p ts e → rank ≤ e.rank
  left {ts : List Token} {e : Expr} : q ts e → rank ≤ e.rank

lemma rank_secondary {ts : List Token} {e : Expr} (h : Secondary constant p ts e) : e.rank = 4 := by
  obtain hp | _ | _ := h
  · cases hp <;> rfl
  · rfl
  · rfl

lemma operands_secondary (h : Within p (Yields q) r) :
    Operands 4 (Secondary constant p) (Secondary constant q) (Secondary constant r) where
  within := within_secondary h
  right he := (rank_secondary he).ge
  left he := (rank_secondary he).ge

section

variable {side : Associativity} {level : Level} {ts us : List Token} {e : Expr}

/-- A chain is a single operand, or an operation of its level. -/
lemma rank_chain (h : Chain side level p ts e) : p ts e ∨ e.rank = level.rank := by
  obtain he | ⟨_, _, ht, _⟩ | ⟨_, _, ht, _⟩ := h
  · exact .inl he
  · exact .inr (Expr.rank_binary (operator_of_mem_terminals ht).2)
  · exact .inr (Expr.rank_binary (operator_of_mem_terminals ht).2)

lemma operand_of_chain (h : Chain side level p ts e) (he : level.rank < e.rank) : p ts e :=
  (rank_chain h).resolve_right he.ne'

lemma le_rank_chain (hp : ∀ {ts e}, p ts e → level.rank + 1 ≤ e.rank)
    (h : Chain side level p ts e) : level.rank ≤ e.rank := by
  rcases rank_chain h with he | he
  · exact Nat.le_of_succ_le (hp he)
  · exact he.ge

/-- The operands of an operation that a chain yields to the left. -/
lemma Yields.chain {operator : Text} {f : Expr}
    (hq : ∀ {ts e}, q ts e → level.rank + 1 ≤ e.rank) (hmem : operator ∈ level.operators)
    (h : Yields (Chain .left level q) (.binary operator e f)) :
    Yields (Chain .left level q) e ∧ Yields q f := by
  obtain ⟨_, he | ⟨hs, _, _, _⟩ | ⟨_, he, _, hf⟩⟩ := h
  · have hrank := hq he
    rw [Expr.rank_binary hmem] at hrank
    exact absurd hrank (Nat.not_succ_le_self _)
  · cases hs
  · exact ⟨⟨_, he⟩, ⟨_, hf⟩⟩

/-- **Chains**: one tree to both sides is no chain of more than one operator, since its left operand
binds tighter than the operator when the chain folds to the right, and its right one does when it
folds to the left. -/
lemma operands_chain (h : Operands (level.rank + 1) p q r) :
    Operands level.rank (Chain .right level p) (Chain .left level q) (Short level r) where
  right := le_rank_chain h.right
  left := le_rank_chain h.left
  within := by
    rintro _ _ (he | ⟨_, he, ht, hf⟩ | ⟨hs, _, _, _⟩) ⟨us, hq⟩
    · exact .operand (h.within _ _ he ⟨us, operand_of_chain hq (h.right he)⟩)
    · have hmem := (operator_of_mem_terminals ht).2
      obtain ⟨⟨vs, hleft⟩, ⟨ws, hright⟩⟩ := Yields.chain h.left hmem ⟨us, hq⟩
      have hleft := operand_of_chain hleft (h.right he)
      have hf := operand_of_chain hf (h.left hright)
      exact .binary (h.within _ _ he ⟨vs, hleft⟩) ht (h.within _ _ hf ⟨ws, hright⟩)
    · cases hs

end

end

lemma within_expression (constant : Token → Value → Prop) (levels : Nat) :
    Within (Expression constant .right levels) (Yields (Expression constant .left levels))
      (ShortExpression constant levels) := by
  induction levels with
  | zero => exact fun _ _ => False.elim
  | succ levels ih =>
    have hsecondary : Operands (Level.multiplicative.rank + 1) _ _ _ :=
      @operands_secondary constant _ _ _ ih
    have hmultiplicative : Operands (Level.additive.rank + 1) _ _ _ := operands_chain hsecondary
    have hadditive : Operands (Level.equality.rank + 1) _ _ _ := operands_chain hmultiplicative
    have hequality : Operands (Level.logical.rank + 1) _ _ _ := operands_chain hadditive
    exact (operands_chain hequality).within

section

variable {expr expr' short : Phrase Expr} {block block' body : Phrase (List Stmt)}

/-- Whether the parts of a statement are yielded where `statement` has them. An else part may be
empty because it is absent. -/
def Statement.Parts (expr : Phrase Expr) (block : Phrase (List Stmt)) : Stmt → Prop
  | .expression e => Yields expr e
  | .assignment e f => Yields expr e ∧ Yields expr f
  | .declaration _ x => ∀ e ∈ x, Yields expr e
  | .ifElse e vs ws => Yields expr e ∧ Yields block vs ∧ (ws = [] ∨ Yields block ws)
  | .forIn _ e vs => Yields expr e ∧ Yields block vs
  | .whileDo e vs => Yields expr e ∧ Yields block vs
  | .return e => Yields expr e

lemma Yields.statement {v : Stmt} (h : Yields (Statement expr block) v) :
    Statement.Parts expr block v := by
  obtain ⟨_, h⟩ := h
  cases h with
  | declaration _ _ hx _ => exact fun e he => (Yields.optional ⟨_, hx⟩ e he).after
  | ifElse _ he _ hvs hws _ =>
    refine ⟨⟨_, he⟩, ⟨_, hvs⟩, ?_⟩
    obtain _ | ⟨_, hws⟩ := hws
    · exact .inl rfl
    · exact .inr ⟨_, hws⟩
  | forIn _ _ _ he _ hvs _ => exact ⟨⟨_, he⟩, ⟨_, hvs⟩⟩
  | whileDo _ he _ hvs _ => exact ⟨⟨_, he⟩, ⟨_, hvs⟩⟩
  | returning _ he _ => exact ⟨_, he⟩
  | expression he _ => exact ⟨_, he⟩
  | assignment he _ hf _ => exact ⟨⟨_, he⟩, ⟨_, hf⟩⟩

lemma within_else (hb : Within block (Yields block') body)
    (hnil : ∀ ts, block ts [] → body ts []) :
    Within (Else block) (fun vs => vs = [] ∨ Yields block' vs) (Else body) := by
  rintro _ _ (_ | ⟨ht, hvs⟩) hq
  · exact .absent
  · rcases hq with rfl | hq
    · exact .present ht (hnil _ hvs)
    · exact .present ht (hb _ _ hvs hq)

lemma within_statement (h : Within expr (Yields expr') short)
    (hb : Within block (Yields block') body) (hnil : ∀ ts, block ts [] → body ts []) :
    Within (Statement expr block) (Yields (Statement expr' block')) (Statement short body) := by
  intro ts v hv hq
  have hparts := hq.statement
  cases hv with
  | declaration ht hn hx hs => exact .declaration ht hn (h.after.optional _ _ hx hparts) hs
  | ifElse ht he hd hvs hws hend =>
    obtain ⟨hcondition, hthen, helse⟩ := hparts
    exact .ifElse ht (h _ _ he hcondition) hd (hb _ _ hvs hthen)
      (within_else hb hnil _ _ hws helse) hend
  | forIn ht hn hi he hd hvs hend =>
    obtain ⟨hvalue, hbody⟩ := hparts
    exact .forIn ht hn hi (h _ _ he hvalue) hd (hb _ _ hvs hbody) hend
  | whileDo ht he hd hvs hend =>
    obtain ⟨hcondition, hbody⟩ := hparts
    exact .whileDo ht (h _ _ he hcondition) hd (hb _ _ hvs hbody) hend
  | returning ht he hs => exact .returning ht (h _ _ he hparts) hs
  | expression he hs => exact .expression (h _ _ he hparts) hs
  | assignment he ht hf hs =>
    obtain ⟨hreceiver, hvalue⟩ := hparts
    exact .assignment (h _ _ he hreceiver) ht (h _ _ hf hvalue) hs

end

lemma shortBlock_nil {levels : Nat} {side : Associativity} {ts : List Token}
    (h : Block constant side levels ts []) : ShortBlock constant levels ts [] := by
  cases levels with
  | zero => exact h
  | succ levels =>
    cases h
    exact .nil

lemma within_block (constant : Token → Value → Prop) (levels : Nat) :
    Within (Block constant .right levels) (Yields (Block constant .left levels))
      (ShortBlock constant levels) := by
  induction levels with
  | zero => exact fun _ _ => False.elim
  | succ levels ih =>
    have hstatement := within_statement (within_expression constant levels) ih
      fun _ => shortBlock_nil
    exact fun ts vs hvs hq => hstatement.many ts vs hvs hq.many

lemma within_shortStatement (constant : Token → Value → Prop) (levels : Nat) :
    Within (Statement (Expression constant .right levels) (Block constant .right levels))
      (Yields (Statement (Expression constant .left levels) (Block constant .left levels)))
      (ShortStatement constant levels) :=
  within_statement (within_expression constant levels) (within_block constant levels)
    fun _ => shortBlock_nil

section

variable {expr expr' short : Phrase Expr} {block block' body : Phrase (List Stmt)}

lemma within_field (h : Within expr (Yields expr') short) :
    Within (Field expr) (Yields (Field expr')) (Field short) := by
  rintro _ _ ⟨ht, hn, hty, hx, hs⟩ ⟨us, hq⟩
  have hparts : ∀ f, Field expr' us f → ∀ e ∈ f.value, Yields expr' e := by
    rintro _ ⟨_, _, _, hx, _⟩ e he
    exact (Yields.optional ⟨_, hx⟩ e he).after
  exact .field ht hn hty (h.after.optional _ _ hx (hparts _ hq)) hs

lemma within_method (hb : Within block (Yields block') body) :
    Within (Method block) (Yields (Method block')) (Method body) := by
  rintro _ _ ⟨ht, hn, hl, hps, hd, hvs, hend⟩ ⟨us, hq⟩
  have hparts : ∀ m, Method block' us m → Yields block' m.body := by
    rintro _ ⟨_, _, _, _, _, hvs, _⟩
    exact ⟨_, hvs⟩
  exact .method ht hn hl hps hd (hb _ _ hvs (hparts _ hq)) hend

lemma Yields.source {s : Pebble.Source} (h : Yields (Source expr block) s) :
    (∀ f ∈ s.fields, Yields (Field expr) f) ∧ ∀ m ∈ s.methods, Yields (Method block) m := by
  obtain ⟨_, h⟩ := h
  induction h with
  | empty => exact ⟨nofun, nofun⟩
  | field hf _ ih => exact ⟨List.forall_mem_cons.mpr ⟨⟨_, hf⟩, ih.1⟩, ih.2⟩
  | method hm _ ih => exact ⟨ih.1, List.forall_mem_cons.mpr ⟨⟨_, hm⟩, ih.2⟩⟩

lemma within_source (hf : Within (Field expr) (Yields (Field expr')) (Field short))
    (hm : Within (Method block) (Yields (Method block')) (Method body)) :
    Within (Source expr block) (Yields (Source expr' block')) (Source short body) := by
  intro ts s hs hq
  -- The second derivation may have its fields and methods in other turns.
  obtain ⟨hfields, hmethods⟩ := hq.source
  clear hq
  induction hs with
  | empty => exact .empty
  | field hfirst _ ih =>
    obtain ⟨hq, hothers⟩ := List.forall_mem_cons.mp hfields
    exact .field (hf _ _ hfirst hq) (ih hothers hmethods)
  | method hfirst _ ih =>
    obtain ⟨hq, hothers⟩ := List.forall_mem_cons.mp hmethods
    exact .method (hm _ _ hfirst hq) (ih hfields hothers)

end

lemma within_program (constant : Token → Value → Prop) (levels : Nat) :
    Within (Program constant .right levels) (Yields (Program constant .left levels))
      (ShortProgram constant levels) :=
  within_source (within_field (within_expression constant levels))
    (within_method (within_block constant levels))

end Pebble.Grammar

import Pebble.Proofs.Grammar.Derivation
import Pebble.Proofs.Grammar.Run

/-!
Lookahead: the terminals that begin the phrases of a symbol, and those with which an expression
goes on after a token where it could also end.
-/

namespace Pebble.Grammar

variable {α : Type}

def Expression.first : List Terminal :=
  [.word .NIL, .word .TRUE, .word .FALSE, .integer, .decimal, .character, .string, .name,
    .mark '(']

def Statement.words : List Terminal :=
  [.word .LET, .word .IF, .word .FOR, .word .WHILE, .word .RETURN]

def Statement.first : List Terminal := Statement.words ++ Expression.first

def Secondary.next (call : Bool) : List Terminal :=
  (if call then [.mark '('] else []) ++ [.mark '.']

def Multiplicative.next (call : Bool) : List Terminal :=
  Secondary.next call ++ Level.terminals .multiplicative

def Additive.next (call : Bool) : List Terminal :=
  Multiplicative.next call ++ Level.terminals .additive

def Equality.next (call : Bool) : List Terminal :=
  Additive.next call ++ Level.terminals .equality

def Expression.next (call : Bool) : List Terminal :=
  Equality.next call ++ Level.terminals .logical

/-- The phrases of a symbol are not empty, and each begins with one of some terminals. -/
def Begins (p : Phrase α) (cs : List Terminal) : Prop :=
  ∀ ts v, p ts v → ∃ t us, ts = t :: us ∧ t.terminal ∈ cs

namespace Begins

variable {p : Phrase α} {cs follow : List Terminal}

lemma append {ts : List Token} {v : α} (h : Begins p cs) (hv : p ts v) (us : List Token) :
    ∃ t vs, ts ++ us = t :: vs ∧ t.terminal ∈ cs := by
  obtain ⟨t, vs, rfl, ht⟩ := h ts v hv
  exact ⟨t, vs ++ us, rfl, ht⟩

lemma clear {ts : List Token} {v : α} (h : Begins p cs) (hv : p ts v)
    (hd : ∀ c ∈ cs, c ∉ follow) (rest : List Token) : Clear follow (ts ++ rest) := by
  obtain ⟨t, vs, heq, ht⟩ := h.append hv rest
  rw [heq]
  exact clear_cons.2 (hd _ ht)

lemma clear_many {ts rest : List Token} {vs : List α} (h : Begins p cs) (hvs : Many p ts vs)
    (hd : ∀ c ∈ cs, c ∉ follow) (hrest : Clear follow rest) : Clear follow (ts ++ rest) := by
  rcases hvs with _ | ⟨hv, hvs⟩
  · exact hrest
  · rw [List.append_assoc]
    exact h.clear hv hd _

lemma separated (h : Begins p cs) : Begins (Separated p) cs := by
  rintro _ _ ⟨hv, hvs⟩
  exact h.append hv _

end Begins

lemma begins_name : Begins Name [.name] := by
  rintro _ _ ⟨ht⟩
  exact ⟨_, [], rfl, by simpa using ht⟩

lemma begins_after {c : Terminal} {p : Phrase α} : Begins (After c p) [c] := by
  rintro _ _ ⟨ht, _⟩
  exact ⟨_, _, rfl, by simpa using ht⟩

lemma begins_link {level : Level} {p : Phrase Expr} :
    Begins (Link level p) (Level.terminals level) := by
  rintro _ _ ⟨ht, _⟩
  exact ⟨_, _, rfl, ht⟩

lemma mem_first_of_isConstant {c : Terminal} (h : c.isConstant) : c ∈ Expression.first := by
  cases c with
  | word w => cases w <;> first | decide | exact absurd h (by decide)
  | name | operator _ => exact absurd h (by simp [Terminal.isConstant])
  | _ => decide

section

variable {constant : Token → Value → Prop} {side : Associativity}

lemma begins_primary (hc : constant ≤ IsConstant) {inner : Phrase Expr} :
    Begins (Primary constant inner) Expression.first := by
  rintro _ _ (hv | ht | ⟨ht, _, _⟩ | ⟨hl, _, _⟩)
  · exact ⟨_, [], rfl, mem_first_of_isConstant (hc _ _ hv)⟩
  · exact ⟨_, [], rfl, by rw [ht]; decide⟩
  · exact ⟨_, _, rfl, by rw [ht]; decide⟩
  · exact ⟨_, _, rfl, by rw [hl]; decide⟩

lemma begins_secondary (hc : constant ≤ IsConstant) {inner : Phrase Expr} :
    Begins (Secondary constant inner) Expression.first := by
  intro ts e h
  induction h with
  | primary hp => exact begins_primary hc _ _ hp
  | member _ _ _ ih | invoke _ _ _ _ _ ih =>
    obtain ⟨t, us, rfl, ht⟩ := ih
    exact ⟨t, _, rfl, ht⟩

lemma begins_chain {level : Level} {p : Phrase Expr} {cs : List Terminal} (h : Begins p cs) :
    Begins (Chain side level p) cs := by
  intro ts e he
  obtain ⟨us, vs, first, links, rfl, hfirst, _, _⟩ := he.flat
  exact h.append hfirst _

lemma begins_expression (hc : constant ≤ IsConstant) (side : Associativity) (levels : Nat) :
    Begins (Expression constant side levels) Expression.first := by
  cases levels with
  | zero => exact fun _ _ => False.elim
  | succ levels =>
    exact begins_chain (begins_chain (begins_chain (begins_chain (begins_secondary hc))))

lemma begins_statement {expr : Phrase Expr} {block : Phrase (List Stmt)}
    (h : Begins expr Expression.first) : Begins (Statement expr block) Statement.first := by
  have hexpr : ∀ {ts us : List Token} {e : Expr}, expr ts e →
      ∃ t vs, ts ++ us = t :: vs ∧ t.terminal ∈ Statement.first := by
    intro ts us e he
    obtain ⟨t, vs, heq, ht⟩ := h.append he us
    exact ⟨t, vs, heq, List.mem_append_right _ ht⟩
  intro ts v hv
  cases hv with
  | declaration ht | ifElse ht | forIn ht | whileDo ht | returning ht =>
    exact ⟨_, _, rfl, by rw [ht]; decide⟩
  | expression he | assignment he => exact hexpr he

lemma begins_item {expr : Phrase Expr} {block : Phrase (List Stmt)} :
    Begins (Item expr block) [.word .LET, .word .DEF] := by
  rintro _ _ (⟨ht, _⟩ | ⟨ht, _⟩) <;> exact ⟨_, _, rfl, by simp [ht]⟩

end

/-- A statement that begins with none of the keywords begins with an expression. -/
lemma statementOf_of_clear {inner : Rule Expr} {body : List Pattern → Rule (List Stmt)}
    {ts : List Token} (h : Clear Statement.words ts) :
    Rule.statementOf inner body ts = Rule.assignment inner ts := by
  have hw : ∀ w, .word w ∈ Statement.words → Clear [.word w] ts := fun w hw =>
    h.mono (by simpa using hw)
  rw [Rule.statementOf, Rule.branch_of_clear (Pattern.fit_keyword .LET) (hw .LET (by decide)),
    Rule.branch_of_clear (Pattern.fit_keyword .IF) (hw .IF (by decide)),
    Rule.branch_of_clear (Pattern.fit_keyword .FOR) (hw .FOR (by decide)),
    Rule.branch_of_clear (Pattern.fit_keyword .WHILE) (hw .WHILE (by decide)),
    Rule.branch_of_clear (Pattern.fit_keyword .RETURN) (hw .RETURN (by decide))]

end Pebble.Grammar

import Pebble.Proofs.Grammar.Acceptance
import Pebble.Proofs.Token.Layout

/-!
Properness: what is derived from the tokens of a text is proper, so that precedence shows in the
nesting and nothing is open deeper than allowed.
-/

namespace Pebble

/-- Whether the literal of a token is one of its kind. -/
def Token.Lexed (t : Token) : Prop := t.literal ∈ Lexeme.language t.kind

namespace Grammar

variable {α : Type} {side : Associativity}

/-- Whether the values of phrases have a property, if the tokens are those of a text. -/
def Ensures (p : Phrase α) (Q : α → Prop) : Prop :=
  ∀ ts v, p ts v → (∀ t ∈ ts, t.Lexed) → Q v

section

variable {p : Phrase α} {Q : α → Prop}

lemma ensures_name : Ensures Name IsName := by
  rintro _ _ ⟨ht⟩ hts
  rename_i t
  obtain ⟨kind, literal, offset⟩ := t
  have hlexed := hts _ List.mem_cons_self
  cases kind <;> simp only [Token.terminal, reduceCtorEq] at ht
  rcases hof : Keyword.ofText? literal with _ | w
  · exact ⟨hlexed, hof⟩
  · simp [hof] at ht

lemma ensures_after {c : Terminal} (h : Ensures p Q) : Ensures (After c p) Q := by
  rintro _ _ ⟨_, hv⟩ hts
  exact h _ _ hv (List.forall_mem_cons.mp hts).2

lemma ensures_optional (h : Ensures p Q) : Ensures (Optional p) fun x => ∀ v ∈ x, Q v := by
  rintro _ _ (_ | hv) hts
  · nofun
  · rintro _ ⟨⟩
    exact h _ _ hv hts

lemma ensures_many (h : Ensures p Q) : Ensures (Many p) fun vs => ∀ v ∈ vs, Q v := by
  intro ts vs hvs
  induction hvs with
  | nil => nofun
  | cons hv _ ih =>
    intro hts
    obtain ⟨hfirst, hothers⟩ := List.forall_mem_append.mp hts
    exact List.forall_mem_cons.mpr ⟨h _ _ hv hfirst, ih hothers⟩

lemma ensures_listed (h : Ensures p Q) : Ensures (Listed p) fun vs => ∀ v ∈ vs, Q v := by
  rintro _ _ (_ | ⟨⟨hv, hvs⟩, _⟩) hts
  · nofun
  · obtain ⟨hitems, -⟩ := List.forall_mem_append.mp hts
    obtain ⟨hfirst, hothers⟩ := List.forall_mem_append.mp hitems
    exact List.forall_mem_cons.mpr
      ⟨h _ _ hv hfirst, ensures_many (ensures_after h) _ _ hvs hothers⟩

end

/-- What a token denotes can be written. -/
lemma proper_of_denotes {t : Token} {v : Value} (h : t.Denotes v) : v.Proper := by
  cases h with
  | nil | true | false | text => trivial
  | @integer negative digits _ _ hne hd hlen =>
    have habs : (Numeral.signed negative (Numeral.value digits)).natAbs = Numeral.value digits := by
      cases negative <;> simp [Numeral.signed]
    have hlength := Numeral.length_ofNat_value hne hd
    rw [Value.Proper, habs]
    omega
  | @decimal _ _ fraction _ _ _ hne _ _ hr =>
    have hpos : 0 < fraction.length := List.length_pos_iff.mpr hne
    exact ⟨by omega, hr⟩

/-- What is read of an expression that binds at least so tightly, with so many levels left
inside. -/
structure Fit (side : Associativity) (rank levels : Nat) (e : Expr) : Prop where
  proper : e.Proper side
  rank_le : rank ≤ e.rank
  inside_le : e.inside ≤ levels

section

variable {inner : Phrase Expr} {levels : Nat}

lemma Fit.binary {j k : Nat} {level : Level} {operator : Text} {left right : Expr}
    (ho : operator ∈ level.operators) (hfits : side.Fits level left right)
    (hl : Fit side j levels left) (hr : Fit side k levels right) :
    Fit side level.rank levels (.binary operator left right) where
  proper := .binary ho hfits hl.proper hr.proper
  rank_le := (Expr.rank_binary ho).ge
  inside_le := max_le hl.inside_le hr.inside_le

lemma ensures_arguments (h : Ensures inner fun e => e.Proper side ∧ e.nesting ≤ levels) :
    Ensures (Listed inner) fun es =>
      (∀ e ∈ es, e.Proper side) ∧ Expr.insideOf es ≤ levels := by
  intro ts es hes hts
  have hall := ensures_listed h ts es hes hts
  exact ⟨fun e he => (hall e he).1, Expr.insideOf_le_iff.mpr fun e he => (hall e he).2⟩

lemma ensures_primary (h : Ensures inner fun e => e.Proper side ∧ e.nesting ≤ levels) :
    Ensures (Primary Token.Denotes inner) (Fit side 4 levels) := by
  rintro _ _ (hv | ht | ⟨ht, hl, hargs⟩ | ⟨hl, he, hr⟩) hts
  · exact ⟨.literal (proper_of_denotes hv), le_rfl, Nat.zero_le _⟩
  · exact ⟨.variable (ensures_name _ _ (.name ht) hts), le_rfl, Nat.zero_le _⟩
  · obtain ⟨hname, hlist⟩ := List.forall_mem_cons.mp hts
    have hn := ensures_name _ _ (.name ht) (List.forall_mem_singleton.mpr hname)
    obtain ⟨hproper, hinside⟩ :=
      ensures_arguments h _ _ hargs (List.forall_mem_cons.mp hlist).2
    exact ⟨.call hn hproper, le_rfl, hinside⟩
  · obtain ⟨-, hgroup⟩ := List.forall_mem_cons.mp hts
    obtain ⟨hproper, hnesting⟩ := h _ _ he (List.forall_mem_append.mp hgroup).1
    exact ⟨.group hproper, le_rfl, hnesting⟩

lemma ensures_secondary (h : Ensures inner fun e => e.Proper side ∧ e.nesting ≤ levels) :
    Ensures (Secondary Token.Denotes inner) (Fit side 4 levels) := by
  intro ts e he
  induction he with
  | primary hp => exact ensures_primary h _ _ hp
  | member _ _ hn ih =>
    intro hts
    obtain ⟨hleft, hright⟩ := List.forall_mem_append.mp hts
    have hname := ensures_name _ _ (.name hn) (List.forall_mem_cons.mp hright).2
    have hr := ih hleft
    exact ⟨.member hr.proper (Expr.not_binary_of_rank hr.rank_le) hname, le_rfl, hr.inside_le⟩
  | invoke _ _ hn _ hargs ih =>
    intro hts
    obtain ⟨hleft, hright⟩ := List.forall_mem_append.mp hts
    obtain ⟨hname, hlist⟩ := List.forall_mem_cons.mp (List.forall_mem_cons.mp hright).2
    have hname := ensures_name _ _ (.name hn) (List.forall_mem_singleton.mpr hname)
    have hr := ih hleft
    obtain ⟨hproper, hinside⟩ :=
      ensures_arguments h _ _ hargs (List.forall_mem_cons.mp hlist).2
    exact ⟨.invoke hr.proper (Expr.not_binary_of_rank hr.rank_le) hname hproper, le_rfl,
      max_le hr.inside_le hinside⟩

/-- In a chain the operand on the side to which it folds is a chain of the same level, the other
one is an operand. -/
lemma ensures_chain {level : Level} {operand : Phrase Expr}
    (h : Ensures operand (Fit side (level.rank + 1) levels)) :
    Ensures (Chain side level operand) (Fit side level.rank levels) := by
  intro ts e he
  induction he with
  | operand he =>
    intro hts
    have hfit := h _ _ he hts
    exact ⟨hfit.proper, Nat.le_of_succ_le hfit.rank_le, hfit.inside_le⟩
  | right hs he ht _ ih =>
    intro hts
    -- Only chains that fold to the right are derived this way.
    subst hs
    obtain ⟨hleft, hright⟩ := List.forall_mem_append.mp hts
    have hl := h _ _ he hleft
    have hr := ih (List.forall_mem_cons.mp hright).2
    exact .binary (operator_of_mem_terminals ht).2 ⟨hl.rank_le, hr.rank_le⟩ hl hr
  | left hs _ ht hf ih =>
    intro hts
    subst hs
    obtain ⟨hleft, hright⟩ := List.forall_mem_append.mp hts
    have hl := ih hleft
    have hr := h _ _ hf (List.forall_mem_cons.mp hright).2
    exact .binary (operator_of_mem_terminals ht).2 ⟨hl.rank_le, hr.rank_le⟩ hl hr

end

lemma ensures_expression (side : Associativity) (levels : Nat) :
    Ensures (Expression Token.Denotes side levels)
      fun e => e.Proper side ∧ e.nesting ≤ levels := by
  induction levels with
  | zero => exact fun _ _ => False.elim
  | succ levels ih =>
    -- From the operands outwards, each level has the rank of its operands less one.
    have hsecondary : Ensures _ (Fit side (Level.multiplicative.rank + 1) levels) :=
      ensures_secondary ih
    have hmultiplicative : Ensures _ (Fit side (Level.additive.rank + 1) levels) :=
      ensures_chain hsecondary
    have hadditive : Ensures _ (Fit side (Level.equality.rank + 1) levels) :=
      ensures_chain hmultiplicative
    have hequality : Ensures _ (Fit side (Level.logical.rank + 1) levels) :=
      ensures_chain hadditive
    have hlogical := ensures_chain hequality
    intro ts e he hts
    have hfit := hlogical ts e he hts
    exact ⟨hfit.proper, Nat.succ_le_succ hfit.inside_le⟩

section

variable {expr : Phrase Expr} {block : Phrase (List Stmt)} {levels : Nat}

lemma ensures_value (h : Ensures expr fun e => e.Proper side ∧ e.nesting ≤ levels) :
    Ensures (Optional (After (.mark '=') expr)) fun x =>
      (∀ e ∈ x, e.Proper side) ∧ Expr.nestingOf x ≤ levels := by
  intro ts x hx hts
  have hall := ensures_optional (ensures_after h) ts x hx hts
  refine ⟨fun e he => (hall e he).1, ?_⟩
  cases x with
  | none => exact Nat.zero_le _
  | some e => exact (hall e rfl).2

lemma ensures_else (hpos : 1 ≤ levels)
    (hb : Ensures block fun vs => (∀ v ∈ vs, v.Proper side) ∧ Stmt.bodyNesting vs ≤ levels) :
    Ensures (Else block) fun vs =>
      (∀ v ∈ vs, v.Proper side) ∧ Stmt.bodyNesting vs ≤ levels := by
  rintro _ _ (_ | ⟨_, hbody⟩) hts
  · exact ⟨nofun, hpos⟩
  · exact hb _ _ hbody (List.forall_mem_cons.mp hts).2

lemma ensures_statement (h : Ensures expr fun e => e.Proper side ∧ e.nesting ≤ levels)
    (hb : Ensures block fun vs => (∀ v ∈ vs, v.Proper side) ∧ Stmt.bodyNesting vs ≤ levels) :
    Ensures (Statement expr block) fun v => v.Proper side ∧ v.nesting ≤ levels := by
  intro ts v hv hts
  cases hv with
  | declaration ht hn hvalue hs =>
    simp only [List.forall_mem_cons, List.forall_mem_append] at hts
    obtain ⟨-, hname, hvalue', -⟩ := hts
    have hn := ensures_name _ _ (.name hn) (List.forall_mem_singleton.mpr hname)
    obtain ⟨hproper, hnesting⟩ := ensures_value h _ _ hvalue hvalue'
    exact ⟨.declaration hn hproper, hnesting⟩
  | ifElse ht hc hd hbody helse hend =>
    simp only [List.forall_mem_cons, List.forall_mem_append] at hts
    obtain ⟨-, hc', -, hbody', helse', -⟩ := hts
    obtain ⟨hcondition, hcn⟩ := h _ _ hc hc'
    obtain ⟨hthen, htn⟩ := hb _ _ hbody hbody'
    -- A body has a level even if it is empty, as it is where `ELSE` is missing.
    have hpos : 1 ≤ levels := (Stmt.bodyNesting_le_iff.mp htn).1
    obtain ⟨hother, hon⟩ := ensures_else hpos hb _ _ helse helse'
    exact ⟨.ifElse hcondition hthen hother, max_le hcn (max_le htn hon)⟩
  | forIn ht hn hin hvalue hd hbody hend =>
    simp only [List.forall_mem_cons, List.forall_mem_append] at hts
    obtain ⟨-, hname, -, hvalue', -, hbody', -⟩ := hts
    have hn := ensures_name _ _ (.name hn) (List.forall_mem_singleton.mpr hname)
    obtain ⟨hproper, hnesting⟩ := h _ _ hvalue hvalue'
    obtain ⟨hinner, hdepth⟩ := hb _ _ hbody hbody'
    exact ⟨.forIn hn hproper hinner, max_le hnesting hdepth⟩
  | whileDo ht hc hd hbody hend =>
    simp only [List.forall_mem_cons, List.forall_mem_append] at hts
    obtain ⟨-, hc', -, hbody', -⟩ := hts
    obtain ⟨hproper, hnesting⟩ := h _ _ hc hc'
    obtain ⟨hinner, hdepth⟩ := hb _ _ hbody hbody'
    exact ⟨.whileDo hproper hinner, max_le hnesting hdepth⟩
  | returning ht hvalue hs =>
    obtain ⟨hproper, hnesting⟩ :=
      h _ _ hvalue (List.forall_mem_append.mp (List.forall_mem_cons.mp hts).2).1
    exact ⟨.return hproper, hnesting⟩
  | expression hvalue hs =>
    obtain ⟨hproper, hnesting⟩ := h _ _ hvalue (List.forall_mem_append.mp hts).1
    exact ⟨.expression hproper, hnesting⟩
  | assignment hr hq hvalue hs =>
    simp only [List.forall_mem_cons, List.forall_mem_append] at hts
    obtain ⟨hr', -, hvalue', -⟩ := hts
    obtain ⟨hreceiver, hrn⟩ := h _ _ hr hr'
    obtain ⟨hproper, hnesting⟩ := h _ _ hvalue hvalue'
    exact ⟨.assignment hreceiver hproper, max_le hrn hnesting⟩

lemma ensures_block (side : Associativity) (levels : Nat) :
    Ensures (Block Token.Denotes side levels) fun vs =>
      (∀ v ∈ vs, v.Proper side) ∧ Stmt.bodyNesting vs ≤ levels := by
  induction levels with
  | zero => exact fun _ _ => False.elim
  | succ levels ih =>
    intro ts vs hvs hts
    have hall := ensures_many (ensures_statement (ensures_expression side levels) ih) ts vs hvs hts
    refine ⟨fun v hv => (hall v hv).1, Stmt.bodyNesting_le_iff.mpr ⟨by omega, fun v hv => ?_⟩⟩
    exact Nat.succ_le_succ (hall v hv).2

lemma ensures_field (h : Ensures expr fun e => e.Proper side ∧ e.nesting ≤ maxNesting) :
    Ensures (Field expr) (Pebble.Field.Proper side) := by
  rintro _ _ ⟨ht, hn, hty, hvalue, hs⟩ hts
  simp only [List.forall_mem_cons, List.forall_mem_append] at hts
  obtain ⟨-, hname, hty', hvalue', -⟩ := hts
  have hn := ensures_name _ _ (.name hn) (List.forall_mem_singleton.mpr hname)
  have htype := ensures_optional (ensures_after ensures_name) _ _ hty hty'
  obtain ⟨hproper, hnesting⟩ := ensures_value h _ _ hvalue hvalue'
  exact ⟨hn, htype, hproper, hnesting⟩

lemma ensures_method
    (hb : Ensures block fun vs => (∀ v ∈ vs, v.Proper side) ∧ Stmt.bodyNesting vs ≤ maxNesting) :
    Ensures (Method block) (Pebble.Method.Proper side) := by
  rintro _ _ ⟨ht, hn, hl, hps, hd, hbody, hend⟩ hts
  simp only [List.forall_mem_cons, List.forall_mem_append] at hts
  obtain ⟨-, hname, -, hps', -, hbody', -⟩ := hts
  have hn := ensures_name _ _ (.name hn) (List.forall_mem_singleton.mpr hname)
  have hparameters := ensures_listed ensures_name _ _ hps hps'
  obtain ⟨hproper, hnesting⟩ := hb _ _ hbody hbody'
  exact ⟨hn, hparameters, hproper, hnesting⟩

lemma ensures_source (hf : Ensures (Field expr) (Pebble.Field.Proper side))
    (hm : Ensures (Method block) (Pebble.Method.Proper side)) :
    Ensures (Source expr block) (Pebble.Source.Proper side) := by
  intro ts s hs
  induction hs with
  | empty => exact fun _ => ⟨nofun, nofun⟩
  | field hfield _ ih =>
    intro hts
    obtain ⟨hfirst, hothers⟩ := List.forall_mem_append.mp hts
    have hrest := ih hothers
    exact ⟨List.forall_mem_cons.mpr ⟨hf _ _ hfield hfirst, hrest.fields⟩, hrest.methods⟩
  | method hmethod _ ih =>
    intro hts
    obtain ⟨hfirst, hothers⟩ := List.forall_mem_append.mp hts
    have hrest := ih hothers
    exact ⟨hrest.fields, List.forall_mem_cons.mpr ⟨hm _ _ hmethod hfirst, hrest.methods⟩⟩

end

/-- **Soundness**: a source that is read from a text is proper. -/
theorem proper_of_lex_parse {text : Text} {tokens : List Token} {source : Pebble.Source}
    (hlex : lex text = .ok tokens) (hparse : parse side tokens = .ok source) :
    source.Proper side := by
  have hlexed : ∀ t ∈ tokens, t.Lexed := mem_language_of_lex hlex
  obtain ⟨rest, hrun⟩ := parse_eq_ok.1 hparse
  obtain ⟨used, rfl, hprogram⟩ := (reads_source constants_wellFormed side maxNesting).ok
    (fun t ht => Token.wellFormed_of_mem (hlexed t ht)) hrun
  have hused : ∀ t ∈ used, t.Lexed := (List.forall_mem_append.mp hlexed).1
  have hfield := ensures_field (ensures_expression side maxNesting)
  have hmethod := ensures_method (ensures_block side maxNesting)
  exact ensures_source hfield hmethod _ _ hprogram hused

end Grammar

end Pebble

import Pebble.Proofs.Grammar.Properness
import Pebble.Proofs.Tree.Writing

/-!
The image of the language: the symbols of a proper tree derive it, whatever levels its nesting
leaves, so that the trees that are read from some text are the proper ones.
-/

open Pebble.Symbol (commas)

namespace Pebble.Grammar

variable {α : Type} {side : Associativity}

/-- Whether tokens say some symbols: each has the literal of its symbol. -/
def Says (ts : List Token) (symbols : List Symbol) : Prop :=
  ts.map Token.lexeme = symbols.map Symbol.lexeme

namespace Says

variable {ts : List Token} {s : Symbol} {symbols others : List Symbol}

lemma eq_nil (h : Says ts []) : ts = [] := List.map_eq_nil_iff.mp h

lemma cons (h : Says ts (s :: symbols)) :
    ∃ t us, ts = t :: us ∧ t.lexeme = s.lexeme ∧ Says us symbols := by
  rw [Says, List.map_cons, List.map_eq_cons_iff] at h
  exact h

lemma append (h : Says ts (symbols ++ others)) :
    ∃ us vs, ts = us ++ vs ∧ Says us symbols ∧ Says vs others := by
  rw [Says, List.map_append, List.map_eq_append_iff] at h
  exact h

lemma word {w : Keyword} (h : Says ts (.word w :: symbols)) :
    ∃ t us, ts = t :: us ∧ t.terminal = .word w ∧ Says us symbols := by
  obtain ⟨⟨kind, literal, offset⟩, us, rfl, ht, hus⟩ := h.cons
  obtain ⟨rfl, rfl⟩ := Prod.mk.inj ht
  exact ⟨_, us, rfl, by simp only [Token.terminal, Keyword.ofText?_spelling], hus⟩

lemma name {text : Text} (h : Says ts (.name text :: symbols)) (hn : IsName text) :
    ∃ t us, ts = t :: us ∧ t.terminal = .name ∧ t.literal = text ∧ Says us symbols := by
  obtain ⟨⟨kind, literal, offset⟩, us, rfl, ht, hus⟩ := h.cons
  obtain ⟨rfl, rfl⟩ := Prod.mk.inj ht
  exact ⟨_, us, rfl, by simp only [Token.terminal, hn.2], rfl, hus⟩

lemma operator {literal : Text} (h : Says ts (.operator literal :: symbols)) :
    ∃ t us, ts = t :: us ∧ t.terminal = .operator literal ∧ t.literal = literal ∧
      Says us symbols := by
  obtain ⟨⟨kind, text, offset⟩, us, rfl, ht, hus⟩ := h.cons
  obtain ⟨rfl, rfl⟩ := Prod.mk.inj ht
  exact ⟨_, us, rfl, rfl, rfl, hus⟩

lemma mark {c : Char} (h : Says ts (.mark c :: symbols)) :
    ∃ t us, ts = t :: us ∧ t.terminal = .mark c ∧ Says us symbols := by
  obtain ⟨t, us, rfl, ht, -, hus⟩ := h.operator
  exact ⟨t, us, rfl, ht, hus⟩

lemma listed {parts : List (List Symbol)} {c : Char}
    (h : Says ts (commas parts ++ .mark c :: symbols)) :
    ∃ us vs, ts = us ++ vs ∧ Says us (commas parts ++ [.mark c]) ∧ Says vs symbols := by
  rw [← List.singleton_append, ← List.append_assoc] at h
  exact h.append

lemma ended {c : Char} (h : Says ts (symbols ++ [.mark c])) :
    ∃ us s, ts = us ++ [s] ∧ Says us symbols ∧ s.terminal = .mark c := by
  obtain ⟨us, rs, rfl, hus, hrs⟩ := h.append
  obtain ⟨s, rs, rfl, hs, hnil⟩ := hrs.mark
  exact ⟨us, s, by rw [hnil.eq_nil], hus, hs⟩

lemma enclosed {w w' : Keyword} (h : Says ts (.word w :: (symbols ++ [.word w']))) :
    ∃ t us s, ts = t :: (us ++ [s]) ∧ t.terminal = .word w ∧ Says us symbols ∧
      s.terminal = .word w' := by
  obtain ⟨t, rs, rfl, ht, hrs⟩ := h.word
  obtain ⟨us, rs, rfl, hus, hrs⟩ := hrs.append
  obtain ⟨s, rs, rfl, hs, hnil⟩ := hrs.word
  exact ⟨t, us, s, by rw [hnil.eq_nil], ht, hus, hs⟩

lemma constant {v : Value} (h : Says ts [.ofValue v]) (hv : v.Proper) :
    ∃ t, ts = [t] ∧ t.Denotes v := by
  obtain ⟨t, us, rfl, ht, hus⟩ := h.cons
  rw [Symbol.lexeme_ofValue] at ht
  exact ⟨t, by rw [hus.eq_nil], hv.denotes ht⟩

end Says

/-- Whether a phrase derives its value from all tokens that say some symbols. -/
def Writes (p : Phrase α) (v : α) (symbols : List Symbol) : Prop := ∀ ts, Says ts symbols → p ts v

section

variable {p q : Phrase α} {symbols : α → List Symbol}

lemma Writes.mono {v : α} {s : List Symbol} (h : Writes p v s) (hle : p ≤ q) : Writes q v s :=
  fun ts hts => hle _ _ (h ts hts)

lemma writes_name {text : Text} (hn : IsName text) : Writes Name text [.name text] := by
  intro ts hts
  obtain ⟨t, us, rfl, ht, rfl, hus⟩ := hts.name hn
  rw [hus.eq_nil]
  exact .name ht

lemma writes_after {c : Char} {v : α} {s : List Symbol} (h : Writes p v s) :
    Writes (After (.mark c) p) v (.mark c :: s) := by
  intro ts hts
  obtain ⟨t, us, rfl, ht, hus⟩ := hts.mark
  exact .after ht (h us hus)

lemma writes_optional {c : Char} {x : Option α} (h : ∀ v ∈ x, Writes p v (symbols v)) :
    Writes (Optional (After (.mark c) p)) x (Symbol.after c symbols x) := by
  cases x with
  | none =>
    intro ts hts
    rw [hts.eq_nil]
    exact .absent
  | some v => exact fun ts hts => .present (writes_after (h v rfl) ts hts)

lemma writes_many {vs : List α} (h : ∀ v ∈ vs, Writes p v (symbols v)) :
    Writes (Many p) vs (vs.map symbols).flatten := by
  induction vs with
  | nil =>
    intro ts hts
    rw [hts.eq_nil]
    exact .nil
  | cons v vs ih =>
    obtain ⟨hv, hvs⟩ := List.forall_mem_cons.mp h
    intro ts hts
    obtain ⟨us, ws, rfl, hus, hws⟩ := hts.append
    exact .cons (hv us hus) (ih hvs ws hws)

lemma writes_listed {vs : List α} (h : ∀ v ∈ vs, Writes p v (symbols v)) :
    Writes (Listed p) vs (commas (vs.map symbols) ++ [.mark ')']) := by
  intro ts hts
  obtain ⟨us, r, rfl, hus, hr⟩ := hts.ended
  rcases vs with _ | ⟨v, vs⟩
  · rw [hus.eq_nil]
    exact .empty hr
  · obtain ⟨hv, hvs⟩ := List.forall_mem_cons.mp h
    -- behind the first item, each comes after a comma
    have hothers : Writes (Many (After (.mark ',') p)) vs
        (vs.map fun v => .mark ',' :: symbols v).flatten :=
      writes_many fun v hv => writes_after (hvs v hv)
    rw [List.map_cons, Symbol.commas_cons, List.map_map] at hus
    obtain ⟨us, ws, rfl, hus, hws⟩ := hus.append
    exact .items (.separated (hv us hus) (hothers ws hws)) hr

end

/-! ### Expressions -/

section

variable {inner : Phrase Expr} {receiver e : Expr} {arguments : List Expr} {text : Text}

lemma writes_constant {v : Value} (hv : v.Proper) :
    Writes (Secondary Token.Denotes inner) (.literal v) (Expr.literal v).symbols := by
  intro ts hts
  rw [Expr.symbols] at hts
  obtain ⟨t, rfl, ht⟩ := hts.constant hv
  exact .primary (.constant ht)

lemma writes_group (h : Writes inner e e.symbols) :
    Writes (Secondary Token.Denotes inner) (.group e) (Expr.group e).symbols := by
  intro ts hts
  rw [Expr.symbols] at hts
  obtain ⟨l, ts, rfl, hl, hts⟩ := hts.mark
  obtain ⟨us, r, rfl, hus, hr⟩ := hts.ended
  exact .primary (.group hl (h us hus) hr)

lemma writes_variable (hname : IsName text) :
    Writes (Secondary Token.Denotes inner) (.variable text) (Expr.variable text).symbols := by
  intro ts hts
  rw [Expr.symbols] at hts
  obtain ⟨t, us, rfl, ht, rfl, hnil⟩ := hts.name hname
  rw [hnil.eq_nil]
  exact .primary (.variable ht)

lemma writes_member (h : Writes (Secondary Token.Denotes inner) receiver receiver.symbols)
    (hname : IsName text) : Writes (Secondary Token.Denotes inner) (.member receiver text)
      (Expr.member receiver text).symbols := by
  intro ts hts
  rw [Expr.symbols] at hts
  obtain ⟨us, ws, rfl, hus, hws⟩ := hts.append
  obtain ⟨d, ws, rfl, hd, hws⟩ := hws.mark
  obtain ⟨t, ws, rfl, ht, rfl, hnil⟩ := hws.name hname
  rw [hnil.eq_nil]
  exact .member (h us hus) hd ht

lemma writes_call (hname : IsName text) (h : ∀ e ∈ arguments, Writes inner e e.symbols) :
    Writes (Secondary Token.Denotes inner) (.call text arguments)
      (Expr.call text arguments).symbols := by
  intro ts hts
  rw [Expr.symbols, Expr.symbolsOf_eq_map] at hts
  obtain ⟨t, us, rfl, ht, rfl, hus⟩ := hts.name hname
  obtain ⟨l, ws, rfl, hl, hws⟩ := hus.mark
  exact .primary (.call ht hl (writes_listed h ws hws))

lemma writes_invoke (hreceiver : Writes (Secondary Token.Denotes inner) receiver receiver.symbols)
    (hname : IsName text) (h : ∀ e ∈ arguments, Writes inner e e.symbols) :
    Writes (Secondary Token.Denotes inner) (.invoke receiver text arguments)
      (Expr.invoke receiver text arguments).symbols := by
  intro ts hts
  rw [Expr.symbols, Expr.symbolsOf_eq_map] at hts
  obtain ⟨us, ws, rfl, hus, hws⟩ := hts.append
  obtain ⟨d, ws, rfl, hd, hws⟩ := hws.mark
  obtain ⟨t, ws, rfl, ht, rfl, hopen⟩ := hws.name hname
  obtain ⟨l, args, rfl, hl, hargs⟩ := hopen.mark
  exact .invoke (hreceiver us hus) hd ht hl (writes_listed h args hargs)

end

/-- The phrases of expressions that bind at least so tightly. -/
def Ranked (side : Associativity) (inner : Phrase Expr) : Nat → Phrase Expr
  | 0 => Logical Token.Denotes side inner
  | 1 => Equality Token.Denotes side inner
  | 2 => Additive Token.Denotes side inner
  | 3 => Multiplicative Token.Denotes side inner
  | _ => Secondary Token.Denotes inner

lemma ranked_level (inner : Phrase Expr) (level : Level) :
    Ranked side inner level.rank = Chain side level (Ranked side inner (level.rank + 1)) := by
  cases level <;> rfl

/-- What binds more tightly can stand where something looser may. -/
lemma ranked_anti (inner : Phrase Expr) {j k : Nat} (h : j ≤ k) :
    Ranked side inner k ≤ Ranked side inner j := by
  induction h with
  | refl => exact le_rfl
  | step _ ih =>
    refine le_trans ?_ ih
    rename_i k _
    rcases k with _ | _ | _ | _ | k
    iterate 4 exact fun _ _ => .operand
    exact le_rfl

/-- A proper operation is a chain of its level: the operand on the side to which chains fold may be
a chain of this level too, the other one binds tighter. -/
lemma writes_binary {inner : Phrase Expr} {level : Level} {literal : Text} {left right : Expr}
    (ho : literal ∈ level.operators) (hfits : side.Fits level left right)
    (hleft : Writes (Ranked side inner left.rank) left left.symbols)
    (hright : Writes (Ranked side inner right.rank) right right.symbols) :
    Writes (Ranked side inner level.rank) (.binary literal left right)
      (Expr.binary literal left right).symbols := by
  intro ts hts
  rw [Expr.symbols] at hts
  obtain ⟨us, ws, rfl, hus, hws⟩ := hts.append
  obtain ⟨t, rs, rfl, ht, rfl, hrs⟩ := hws.operator
  have hmem : t.terminal ∈ Level.terminals level := by
    rw [ht]
    exact List.mem_map_of_mem ho
  rw [ranked_level]
  cases side with
  | right =>
    have hr := ranked_anti _ hfits.2 _ _ (hright rs hrs)
    rw [ranked_level] at hr
    exact .right rfl (ranked_anti _ hfits.1 _ _ (hleft us hus)) hmem hr
  | left =>
    have hl := ranked_anti _ hfits.1 _ _ (hleft us hus)
    rw [ranked_level] at hl
    exact .left rfl hl hmem (ranked_anti _ hfits.2 _ _ (hright rs hrs))

section

variable {levels : Nat}

/-- An expression within another one has a level of its own. -/
lemma writes_inner {e : Expr}
    (h : ∀ n, e.inside ≤ n →
      Writes (Ranked side (Expression Token.Denotes side n) e.rank) e e.symbols)
    (hn : e.nesting ≤ levels) : Writes (Expression Token.Denotes side levels) e e.symbols := by
  obtain ⟨n, rfl⟩ : ∃ n, levels = n + 1 := ⟨levels - 1, by rw [Expr.nesting] at hn; omega⟩
  exact (h n (Nat.le_of_succ_le_succ hn)).mono (ranked_anti _ (Nat.zero_le _))

/-- An expression is derived from its symbols as one that binds as tightly as it does. -/
lemma writes_ranked {e : Expr} (he : e.Proper side) : ∀ n, e.inside ≤ n →
    Writes (Ranked side (Expression Token.Denotes side n) e.rank) e e.symbols := by
  -- By induction on the expression, with the levels left inside it free: a part that is an
  -- expression of its own, in parentheses or an argument, has one level less.
  induction he with
  | literal hv => exact fun n _ => writes_constant hv
  | group _ ih => exact fun n hn => writes_group (writes_inner ih hn)
  | «variable» hname => exact fun n _ => writes_variable hname
  | member _ hb hname ih =>
    intro n hn
    have hreceiver := ih n hn
    rw [Expr.rank_of_not_binary hb] at hreceiver
    exact writes_member hreceiver hname
  | call hname _ ih =>
    intro n hn
    have harguments := Expr.insideOf_le_iff.mp hn
    exact writes_call hname fun e he => writes_inner (ih e he) (harguments e he)
  | invoke _ hb hname _ ih ihs =>
    intro n hn
    obtain ⟨hinside, hlist⟩ := max_le_iff.mp hn
    have hreceiver := ih n hinside
    rw [Expr.rank_of_not_binary hb] at hreceiver
    have harguments := Expr.insideOf_le_iff.mp hlist
    exact writes_invoke hreceiver hname fun e he => writes_inner (ihs e he) (harguments e he)
  | binary ho hfits _ _ ihl ihr =>
    intro n hn
    obtain ⟨hleft, hright⟩ := max_le_iff.mp hn
    rw [Expr.rank_binary ho]
    exact writes_binary ho hfits (ihl n hleft) (ihr n hright)

lemma writes_expression {e : Expr} (he : e.Proper side) (hn : e.nesting ≤ levels) :
    Writes (Expression Token.Denotes side levels) e e.symbols :=
  writes_inner (writes_ranked he) hn

end

/-! ### Statements -/

section

variable {expr : Phrase Expr} {block : Phrase (List Stmt)} {name : Text} {e v : Expr}
  {body other : List Stmt}

lemma writes_simple (h : Writes expr v v.symbols) :
    Writes (Statement expr block) (.expression v) (Stmt.expression v).symbols := by
  intro ts hts
  rw [Stmt.symbols] at hts
  obtain ⟨us, s, rfl, hus, hs⟩ := hts.ended
  exact .expression (h us hus) hs

lemma writes_assignment (he : Writes expr e e.symbols) (hv : Writes expr v v.symbols) :
    Writes (Statement expr block) (.assignment e v) (Stmt.assignment e v).symbols := by
  intro ts hts
  rw [Stmt.symbols] at hts
  obtain ⟨us, rs, rfl, hus, hrs⟩ := hts.append
  obtain ⟨q, rs, rfl, hq, hrs⟩ := hrs.mark
  obtain ⟨ws, s, rfl, hws, hs⟩ := hrs.ended
  exact .assignment (he us hus) hq (hv ws hws) hs

lemma writes_declaration (hname : IsName name) {value : Option Expr}
    (h : ∀ v ∈ value, Writes expr v v.symbols) :
    Writes (Statement expr block) (.declaration name value)
      (Stmt.declaration name value).symbols := by
  intro ts hts
  rw [Stmt.symbols] at hts
  obtain ⟨t, us, rfl, ht, hus⟩ := hts.word
  obtain ⟨n, rs, rfl, hn, rfl, hrs⟩ := hus.name hname
  obtain ⟨ws, s, rfl, hws, hs⟩ := hrs.ended
  exact .declaration ht hn (writes_optional h ws hws) hs

lemma writes_returning (h : Writes expr v v.symbols) :
    Writes (Statement expr block) (.return v) (Stmt.return v).symbols := by
  intro ts hts
  rw [Stmt.symbols] at hts
  obtain ⟨t, us, rfl, ht, hus⟩ := hts.word
  obtain ⟨xs, s, rfl, hxs, hs⟩ := hus.ended
  exact .returning ht (h xs hxs) hs

lemma writes_whileDo (he : Writes expr e e.symbols)
    (hbody : Writes block body (Stmt.bodySymbols body)) :
    Writes (Statement expr block) (.whileDo e body) (Stmt.whileDo e body).symbols := by
  intro ts hts
  rw [Stmt.symbols] at hts
  obtain ⟨t, us, rfl, ht, hus⟩ := hts.word
  obtain ⟨cs, us, rfl, hcs, hus⟩ := hus.append
  obtain ⟨d, bs, s, rfl, hd, hbs, hs⟩ := hus.enclosed
  exact .whileDo ht (he cs hcs) hd (hbody bs hbs) hs

lemma writes_forIn (hname : IsName name) (he : Writes expr e e.symbols)
    (hbody : Writes block body (Stmt.bodySymbols body)) :
    Writes (Statement expr block) (.forIn name e body) (Stmt.forIn name e body).symbols := by
  intro ts hts
  rw [Stmt.symbols] at hts
  obtain ⟨t, us, rfl, ht, hus⟩ := hts.word
  obtain ⟨n, rs, rfl, hn, rfl, hrs⟩ := hus.name hname
  obtain ⟨i, rs, rfl, hin, hrs⟩ := hrs.word
  obtain ⟨xs, rs, rfl, hxs, hrs⟩ := hrs.append
  obtain ⟨d, bs, s, rfl, hd, hbs, hs⟩ := hrs.enclosed
  exact .forIn ht hn hin (he xs hxs) hd (hbody bs hbs) hs

/-- An else part without statements is absent, since its symbols are. -/
lemma writes_else (h : Writes block other (Stmt.bodySymbols other)) :
    Writes (Else block) other
      (if other.isEmpty then [] else .word .ELSE :: Stmt.bodySymbols other) := by
  intro ts hts
  by_cases hempty : other.isEmpty
  · obtain rfl := List.isEmpty_iff.mp hempty
    rw [if_pos hempty] at hts
    rw [hts.eq_nil]
    exact .absent
  · rw [if_neg hempty] at hts
    obtain ⟨l, us, rfl, hl, hus⟩ := hts.word
    exact .present hl (h us hus)

lemma writes_ifElse (he : Writes expr e e.symbols)
    (hbody : Writes block body (Stmt.bodySymbols body))
    (hother : Writes block other (Stmt.bodySymbols other)) :
    Writes (Statement expr block) (.ifElse e body other) (Stmt.ifElse e body other).symbols := by
  intro ts hts
  rw [Stmt.symbols] at hts
  obtain ⟨t, us, rfl, ht, hus⟩ := hts.word
  obtain ⟨cs, us, rfl, hcs, hus⟩ := hus.append
  obtain ⟨d, us, rfl, hd, hus⟩ := hus.word
  obtain ⟨bs, us, rfl, hbs, hus⟩ := hus.append
  obtain ⟨os, es, rfl, hos, hes⟩ := hus.append
  obtain ⟨s, es, rfl, hs, hnil⟩ := hes.word
  rw [hnil.eq_nil]
  exact .ifElse ht (he cs hcs) hd (hbody bs hbs) (writes_else hother os hos) hs

end

section

variable {levels : Nat}

lemma writes_block {body : List Stmt}
    (h : ∀ v ∈ body, ∀ n, v.nesting ≤ n →
      Writes (Statement (Expression Token.Denotes side n) (Block Token.Denotes side n)) v v.symbols)
    (hn : Stmt.bodyNesting body ≤ levels) :
    Writes (Block Token.Denotes side levels) body (Stmt.bodySymbols body) := by
  obtain ⟨hpos, hbody⟩ := Stmt.bodyNesting_le_iff.mp hn
  obtain ⟨n, rfl⟩ : ∃ n, levels = n + 1 := ⟨levels - 1, by omega⟩
  rw [Stmt.bodySymbols_eq_flatten]
  exact writes_many fun v hv => h v hv n (Nat.le_of_succ_le_succ (hbody v hv))

lemma writes_value {x : Option Expr} (hx : ∀ e ∈ x, e.Proper side)
    (hn : Expr.nestingOf x ≤ levels) :
    ∀ e ∈ x, Writes (Expression Token.Denotes side levels) e e.symbols := by
  rintro e rfl
  exact writes_expression (hx e rfl) hn

lemma writes_statement {v : Stmt} (hv : v.Proper side) : ∀ n, v.nesting ≤ n →
    Writes (Statement (Expression Token.Denotes side n) (Block Token.Denotes side n)) v
      v.symbols := by
  -- By induction on the statement; the levels are free, since a block has one less for each of
  -- its statements. The nesting is that of the part that is nested most, so it bounds every part.
  induction hv with
  | expression he => exact fun n hn => writes_simple (writes_expression he hn)
  | assignment he hv =>
    intro n hn
    obtain ⟨hreceiver, hvalue⟩ := max_le_iff.mp hn
    exact writes_assignment (writes_expression he hreceiver) (writes_expression hv hvalue)
  | declaration hname hx => exact fun n hn => writes_declaration hname (writes_value hx hn)
  | ifElse hc _ _ ihthen ihelse =>
    intro n hn
    obtain ⟨hcondition, hbodies⟩ := max_le_iff.mp hn
    obtain ⟨hthen, helse⟩ := max_le_iff.mp hbodies
    exact writes_ifElse (writes_expression hc hcondition) (writes_block ihthen hthen)
      (writes_block ihelse helse)
  | forIn hname hx _ ih =>
    intro n hn
    obtain ⟨hvalue, hbody⟩ := max_le_iff.mp hn
    exact writes_forIn hname (writes_expression hx hvalue) (writes_block ih hbody)
  | whileDo hc _ ih =>
    intro n hn
    obtain ⟨hcondition, hbody⟩ := max_le_iff.mp hn
    exact writes_whileDo (writes_expression hc hcondition) (writes_block ih hbody)
  | «return» hx => exact fun n hn => writes_returning (writes_expression hx hn)

end

/-! ### Sources -/

lemma writes_field {f : Pebble.Field} (h : f.Proper side) :
    Writes (Field (Expression Token.Denotes side maxNesting)) f f.symbols := by
  intro ts hts
  rw [Pebble.Field.symbols] at hts
  obtain ⟨t, us, rfl, ht, hus⟩ := hts.word
  obtain ⟨name, rs, rfl, hterminal, hliteral, hrs⟩ := hus.name h.name
  obtain ⟨ns, rs, rfl, hns, hrs⟩ := hrs.append
  obtain ⟨xs, s, rfl, hxs, hs⟩ := hrs.ended
  have htype := writes_optional (fun n hn => writes_name (h.typeName n hn)) ns hns
  have hvalue := writes_optional (writes_value h.value h.nesting) xs hxs
  have hfield := Field.field ht hterminal htype hvalue hs
  rwa [hliteral] at hfield

lemma writes_method {m : Pebble.Method} (h : m.Proper side) :
    Writes (Method (Block Token.Denotes side maxNesting)) m m.symbols := by
  intro ts hts
  rw [Pebble.Method.symbols] at hts
  obtain ⟨t, us, rfl, ht, hus⟩ := hts.word
  obtain ⟨name, rs, rfl, hterminal, hliteral, hrs⟩ := hus.name h.name
  obtain ⟨l, rs, rfl, hl, hrs⟩ := hrs.mark
  obtain ⟨ps, rs, rfl, hps, hrs⟩ := hrs.listed
  obtain ⟨d, bs, e, rfl, hd, hbs, he⟩ := hrs.enclosed
  have hparameters := writes_listed (fun n hn => writes_name (h.parameters n hn)) ps hps
  have hbody := writes_block (fun v hv => writes_statement (h.body v hv)) h.nesting bs hbs
  have hmethod := Method.method ht hterminal hl hparameters hd hbody he
  rwa [hliteral] at hmethod

/-- A source is made of its fields and then its methods. -/
lemma ofItems_fields_methods (s : Pebble.Source) :
    Pebble.Source.ofItems (s.fields.map .field ++ s.methods.map .method) = s := by
  obtain ⟨fields, methods⟩ := s
  induction fields with
  | nil =>
    induction methods with
    | nil => rfl
    | cons m methods ih =>
      rw [List.map_nil, List.nil_append] at ih ⊢
      simp [Pebble.Source.ofItems, ih]
  | cons f fields ih => simp [Pebble.Source.ofItems, ih]

lemma writes_source {s : Pebble.Source} (h : s.Proper side) :
    Writes (Program Token.Denotes side maxNesting) s
      ((s.fields.map Pebble.Field.symbols).flatten ++
        (s.methods.map Pebble.Method.symbols).flatten) := by
  have hitems : ∀ item ∈ s.fields.map Pebble.Item.field ++ s.methods.map .method,
      Writes (Item (Expression Token.Denotes side maxNesting)
        (Block Token.Denotes side maxNesting)) item item.symbols := by
    refine List.forall_mem_append.mpr ⟨List.forall_mem_map.mpr fun f hf => ?_,
      List.forall_mem_map.mpr fun m hm => ?_⟩
    · exact fun ts hts => .field (writes_field (h.fields f hf) ts hts)
    · exact fun ts hts => .method (writes_method (h.methods m hm) ts hts)
  intro ts hts
  have hmany := writes_many hitems ts (by simpa [Function.comp_def, Pebble.Item.symbols] using hts)
  have hsource := Source.ofItems hmany
  rwa [ofItems_fields_methods] at hsource

/-- **Completeness**: a proper source is read from the text that lays out its symbols. -/
theorem exists_lex_parse_of_proper {source : Pebble.Source} (h : source.Proper side) :
    ∃ text tokens, lex text = .ok tokens ∧ parse side tokens = .ok source := by
  obtain ⟨tokens, hlex, hsays⟩ := exists_lex_layout h.symbols
  have hprogram := writes_source h tokens hsays
  exact ⟨_, tokens, hlex, parse_eq_ok.2 ⟨[], source_of_program le_rfl hprogram⟩⟩

/-- **The image of the language**: the sources that are read from some text are the proper ones. -/
theorem exists_text_iff_proper (side : Associativity) (source : Pebble.Source) :
    (∃ text tokens, lex text = .ok tokens ∧ parse side tokens = .ok source) ↔
      source.Proper side := by
  constructor
  · rintro ⟨text, tokens, hlex, hparse⟩
    exact proper_of_lex_parse hlex hparse
  · exact exists_lex_parse_of_proper

end Pebble.Grammar

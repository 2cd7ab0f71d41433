import Pebble.Proofs.Grammar.Acceptance
import Pebble.Proofs.Tree.Symbol

/-!
Spelling: no token is lost. The symbols of the tokens that a rule has taken are those of its value,
so that parentheses, separators, operators and empty lists show in the tree.
-/

open Pebble.Symbol (commas)

namespace Pebble.Grammar

variable {α : Type}

/-- Whether the values of phrases determine the symbols of their tokens, whatever follows. -/
def Spells (p : Phrase α) (symbols : α → List Symbol) : Prop :=
  ∀ ts v, p ts v → ∀ rest, normalise (ts ++ rest) = symbols v ++ normalise rest

section

variable {p : Phrase α} {symbols : α → List Symbol}

lemma spells_name : Spells Name fun name => [.name name] := by
  rintro _ _ ⟨ht⟩ rest
  exact normalise_name ht

lemma spells_after {c : Char} (h : Spells p symbols) :
    Spells (After (.mark c) p) fun v => .mark c :: symbols v := by
  rintro _ _ ⟨ht, hv⟩ rest
  rw [List.cons_append, normalise_mark ht, h _ _ hv, List.cons_append]

lemma spells_optional {c : Char} (h : Spells p symbols) :
    Spells (Optional (After (.mark c) p)) (Symbol.after c symbols) := by
  rintro _ _ (_ | hv) rest
  · rfl
  · exact spells_after h _ _ hv rest

lemma spells_many (h : Spells p symbols) :
    Spells (Many p) fun vs => (vs.map symbols).flatten := by
  intro ts vs hvs
  induction hvs with
  | nil => exact fun rest => rfl
  | cons hv _ ih =>
    intro rest
    rw [List.append_assoc, h _ _ hv, ih]
    simp

lemma spells_separated (h : Spells p symbols) :
    Spells (Separated p) fun vs => commas (vs.map symbols) := by
  rintro _ _ ⟨hv, hvs⟩ rest
  have hothers := spells_many (spells_after h) _ _ hvs rest
  rw [List.append_assoc, h _ _ hv, hothers]
  simp [Symbol.commas_cons, Function.comp_def]

lemma spells_listed (h : Spells p symbols) :
    Spells (Listed p) fun vs => commas (vs.map symbols) ++ [.mark ')'] := by
  rintro _ _ (hr | ⟨hvs, hr⟩) rest
  · exact normalise_mark hr
  · rw [List.append_assoc, spells_separated h _ _ hvs, List.singleton_append, normalise_mark hr,
      List.append_assoc, List.singleton_append]

end

/-! ### Expressions -/

section

variable {inner : Phrase Expr} {side : Associativity}

lemma spells_arguments (h : Spells inner Expr.symbols) :
    Spells (Listed inner) fun es => commas (Expr.symbolsOf es) ++ [.mark ')'] := by
  simpa only [Expr.symbolsOf_eq_map] using spells_listed h

lemma spells_primary (h : Spells inner Expr.symbols) :
    Spells (Primary Token.Denotes inner) Expr.symbols := by
  rintro _ _ (hv | ht | ⟨ht, hl, hargs⟩ | ⟨hl, he, hr⟩) rest
  · simp [normalise_constant hv, Expr.symbols]
  · simp [normalise_name ht, Expr.symbols]
  · have hargs := spells_arguments h _ _ hargs rest
    simp [normalise_name ht, normalise_mark hl, hargs, Expr.symbols]
  · have he := h _ _ he
    simp [normalise_mark hl, he, normalise_mark hr, Expr.symbols]

lemma spells_secondary (h : Spells inner Expr.symbols) :
    Spells (Secondary Token.Denotes inner) Expr.symbols := by
  intro ts e he
  induction he with
  | primary hp => exact spells_primary h _ _ hp
  | member _ hd hn ih =>
    intro rest
    simp [ih, normalise_mark hd, normalise_name hn, Expr.symbols]
  | invoke _ hd hn hl hargs ih =>
    intro rest
    have hargs := spells_arguments h _ _ hargs rest
    simp [ih, normalise_mark hd, normalise_name hn, normalise_mark hl, hargs, Expr.symbols]

/-- To whatever side a chain folds, its operands and operators come in the order of the tokens. -/
lemma spells_chain {level : Level} (h : Spells inner Expr.symbols) :
    Spells (Chain side level inner) Expr.symbols := by
  intro ts e he
  induction he with
  | operand he => exact h _ _ he
  | right _ he ht _ ih =>
    intro rest
    have he := h _ _ he
    simp [he, normalise_operator (operator_of_mem_terminals ht).1, ih, Expr.symbols]
  | left _ _ ht hf ih =>
    intro rest
    have hf := h _ _ hf
    simp [ih, normalise_operator (operator_of_mem_terminals ht).1, hf, Expr.symbols]

lemma spells_expression (side : Associativity) (levels : Nat) :
    Spells (Expression Token.Denotes side levels) Expr.symbols := by
  induction levels with
  | zero => exact fun _ _ => False.elim
  | succ levels ih =>
    exact spells_chain (spells_chain (spells_chain (spells_chain (spells_secondary ih))))

end

/-! ### Statements -/

/-- What the tokens of a block are like: they spell its statements, and a block that is not empty
does not begin with `END`. -/
structure Bodies (block : Phrase (List Stmt)) : Prop where
  spells : Spells block Stmt.bodySymbols
  nil {ts : List Token} : block ts [] → ts = []
  cons {ts : List Token} {s : Stmt} {body : List Stmt} :
    block ts (s :: body) → ∃ t us, ts = t :: us ∧ t.terminal ≠ .word .END

section

variable {expr : Phrase Expr} {block : Phrase (List Stmt)} {side : Associativity}

lemma bodies_many {statement : Phrase Stmt} (h : Spells statement Stmt.symbols)
    (hbegins : Begins statement Statement.first) : Bodies (Many statement) where
  spells := by
    simpa only [← Stmt.bodySymbols_eq_flatten] using spells_many h
  nil := by
    rintro _ ⟨⟩
    rfl
  cons := by
    rintro _ _ _ (_ | ⟨hs, _⟩)
    obtain ⟨t, us, heq, ht⟩ := hbegins.append hs _
    refine ⟨t, us, heq, fun hend => ?_⟩
    rw [hend] at ht
    exact absurd ht (by decide)

/-- Before the `END` of the statement, an else part without statements leaves no trace. -/
lemma normalise_elsePart (hb : Bodies block) {ts : List Token} {other : List Stmt}
    (h : Else block ts other) {e : Token} (he : e.terminal = .word .END) (rest : List Token) :
    normalise (ts ++ e :: rest) =
      (if other.isEmpty then [] else .word .ELSE :: Stmt.bodySymbols other) ++
        .word .END :: normalise rest := by
  have hend : normalise (e :: rest) = .word .END :: normalise rest :=
    normalise_word he (by decide)
  rcases h with _ | ⟨ht, hbody⟩
  · exact hend
  rcases other with _ | ⟨s, other⟩
  · -- An `ELSE` with nothing behind it is dropped.
    obtain rfl := hb.nil hbody
    rw [List.singleton_append, normalise_else_end ht he, hend]
    rfl
  · have hspells := hb.spells _ _ hbody (e :: rest)
    obtain ⟨u, us, rfl, hu⟩ := hb.cons hbody
    -- What follows `ELSE` is not `END`, so `ELSE` is kept.
    rw [List.cons_append, List.cons_append, normalise_else ht hu, ← List.cons_append, hspells, hend]
    simp

lemma spells_statement (he : Spells expr Expr.symbols) (hb : Bodies block) :
    Spells (Statement expr block) Stmt.symbols := by
  intro ts v h rest
  cases h with
  | declaration ht hn hv hs =>
    have hv := spells_optional he _ _ hv
    simp [normalise_word ht, normalise_name hn, hv, normalise_mark hs, Stmt.symbols]
  | ifElse ht hc hd hbody helse hend =>
    have hc := he _ _ hc
    have hbody := hb.spells _ _ hbody
    have helse := normalise_elsePart hb helse hend rest
    simp [normalise_word ht, hc, normalise_word hd, hbody, helse, Stmt.symbols]
  | forIn ht hn hin hv hd hbody hend =>
    have hv := he _ _ hv
    have hbody := hb.spells _ _ hbody
    simp [normalise_word ht, normalise_name hn, normalise_word hin, hv, normalise_word hd, hbody,
      normalise_word hend, Stmt.symbols]
  | whileDo ht hc hd hbody hend =>
    have hc := he _ _ hc
    have hbody := hb.spells _ _ hbody
    simp [normalise_word ht, hc, normalise_word hd, hbody, normalise_word hend, Stmt.symbols]
  | returning ht hv hs =>
    have hv := he _ _ hv
    simp [normalise_word ht, hv, normalise_mark hs, Stmt.symbols]
  | expression hv hs =>
    have hv := he _ _ hv
    simp [hv, normalise_mark hs, Stmt.symbols]
  | assignment hr hq hv hs =>
    have hr := he _ _ hr
    have hv := he _ _ hv
    simp [hr, normalise_mark hq, hv, normalise_mark hs, Stmt.symbols]

lemma bodies_block (side : Associativity) (levels : Nat) :
    Bodies (Block Token.Denotes side levels) := by
  induction levels with
  | zero => exact ⟨fun _ _ => False.elim, False.elim, False.elim⟩
  | succ levels ih =>
    exact bodies_many (spells_statement (spells_expression side levels) ih)
      (begins_statement (begins_expression denotes_le side levels))

/-! ### Sources -/

lemma spells_field (he : Spells expr Expr.symbols) :
    Spells (Field expr) Pebble.Field.symbols := by
  rintro _ _ ⟨ht, hn, hty, hv, hs⟩ rest
  have hty := spells_optional spells_name _ _ hty
  have hv := spells_optional he _ _ hv
  simp [normalise_word ht, normalise_name hn, hty, hv, normalise_mark hs, Pebble.Field.symbols]

lemma spells_method (hb : Bodies block) : Spells (Method block) Pebble.Method.symbols := by
  rintro _ _ ⟨hm, hn, hl, hps, hd, hbody, hend⟩ rest
  have hps := spells_listed spells_name _ _ hps
  have hbody := hb.spells _ _ hbody
  simp [normalise_word hm, normalise_name hn, normalise_mark hl, hps, normalise_word hd, hbody,
    normalise_word hend, Pebble.Method.symbols]

lemma spells_item (he : Spells expr Expr.symbols) (hb : Bodies block) :
    Spells (Item expr block) Pebble.Item.symbols := by
  rintro _ _ (hf | hm)
  · exact spells_field he _ _ hf
  · exact spells_method hb _ _ hm

end

/-- Two lists in one, each in its own order. -/
inductive Interleaves : List α → List α → List α → Prop
  | nil : Interleaves [] [] []
  | left {x : α} {xs ys zs : List α} : Interleaves xs ys zs → Interleaves (x :: xs) ys (x :: zs)
  | right {y : α} {xs ys zs : List α} : Interleaves xs ys zs → Interleaves xs (y :: ys) (y :: zs)

/-- The items of a source are its fields and its methods, each in their order. -/
lemma interleaves_items (items : List Pebble.Item) :
    Interleaves ((Pebble.Source.ofItems items).fields.map Pebble.Field.symbols)
      ((Pebble.Source.ofItems items).methods.map Pebble.Method.symbols)
      (items.map Pebble.Item.symbols) := by
  induction items with
  | nil => exact .nil
  | cons item items ih =>
    cases item with
    | field f => exact .left ih
    | method m => exact .right ih

/-! ### What is read -/

variable {side : Associativity} {levels : Nat} {ts : List Token}

lemma run_eq_ok {rule : Rule α} [Rule.Orderly rule] {v : α} {s : Session}
    (h : (Session.start side ts).run rule = (.ok v, s)) :
    ∃ k : Nat, s.cursor.position = k ∧ rule ts = .ok v (ts.drop k) := by
  rw [run_start] at h
  rcases hrun : rule ts with ⟨w, rest⟩ | ⟨stop, rest⟩ <;> rw [hrun] at h <;>
    simp only [Prod.mk.injEq] at h
  · obtain ⟨hw, rfl⟩ := h
    cases hw
    have hrest := List.suffix_iff_eq_drop.1 (Rule.suffix_of_ok hrun)
    exact ⟨ts.length - rest.length, position_leaving side ts rest, congrArg _ hrest⟩
  · cases h.1

/-- A rule that reads what determines the symbols takes tokens with just these symbols. -/
lemma normalise_take {rule : Rule α} [Rule.Orderly rule] {p q : Phrase α}
    {symbols : α → List Symbol} (hreads : Reads Token.WellFormed [] rule p q)
    (hspells : Spells p symbols) (hts : ∀ t ∈ ts, t.WellFormed) {v : α} {s : Session}
    (h : (Session.start side ts).run rule = (.ok v, s)) :
    ∃ k : Nat, s.cursor.position = k ∧ normalise (ts.take k) = symbols v := by
  obtain ⟨k, hk, hrun⟩ := run_eq_ok h
  obtain ⟨used, hused, hp⟩ := hreads.ok hts hrun
  have htake : ts.take k = used :=
    List.append_cancel_right ((List.take_append_drop k ts).trans hused)
  have hv := hspells _ _ hp []
  refine ⟨k, hk, ?_⟩
  simpa [htake, normalise, Symbol.dropElse] using hv

lemma normalise_nil : normalise [] = [] := rfl

lemma normalise_expression (hts : ∀ t ∈ ts, t.WellFormed) {e : Expr} {s : Session}
    (h : (Session.start side ts).run (Rule.expression side levels) = (.ok e, s)) :
    ∃ k : Nat, s.cursor.position = k ∧ normalise (ts.take k) = e.symbols :=
  normalise_take (reads_expression constants_wellFormed levels) (spells_expression side levels)
    hts h

lemma normalise_statement (hts : ∀ t ∈ ts, t.WellFormed) {v : Stmt} {s : Session}
    (h : (Session.start side ts).run (Rule.statement side levels) = (.ok v, s)) :
    ∃ k : Nat, s.cursor.position = k ∧ normalise (ts.take k) = v.symbols := by
  have hspells := spells_statement (spells_expression side levels) (bodies_block side levels)
  exact normalise_take (reads_statement constants_wellFormed levels) hspells hts h

lemma normalise_source (hts : ∀ t ∈ ts, t.WellFormed) {source : Pebble.Source}
    (h : parse side ts = .ok source) :
    ∃ parts, Interleaves (source.fields.map Pebble.Field.symbols)
        (source.methods.map Pebble.Method.symbols) parts ∧
      normalise ts = parts.flatten := by
  obtain ⟨rest, hrun⟩ := parse_eq_ok.1 h
  obtain ⟨used, rfl, hprogram⟩ := (reads_source constants_wellFormed side maxNesting).ok hts hrun
  obtain ⟨items, hitems, rfl⟩ := Source.flat hprogram
  have hspells := spells_many
    (spells_item (spells_expression side maxNesting) (bodies_block side maxNesting))
  refine ⟨_, interleaves_items items, ?_⟩
  have hall := hspells _ _ hitems []
  rw [Rule.source_rest hrun]
  simpa [normalise_nil] using hall

/-- **No token is lost**: to whatever side chains fold, the tokens that an expression or a statement
takes have the symbols of the tree that is read, and those of a source have the symbols of its
fields and of its methods, in turns. So expressions and statements with one tree were written with
the same symbols. -/
theorem normalise_eq_symbols (side : Associativity) (levels : Nat)
    (hts : ∀ t ∈ ts, t.WellFormed) :
    (∀ e s, (Session.start side ts).run (Rule.expression side levels) = (.ok e, s) →
      ∃ k : Nat, s.cursor.position = k ∧ normalise (ts.take k) = e.symbols) ∧
    (∀ v s, (Session.start side ts).run (Rule.statement side levels) = (.ok v, s) →
      ∃ k : Nat, s.cursor.position = k ∧ normalise (ts.take k) = v.symbols) ∧
    (∀ source, parse side ts = .ok source →
      ∃ parts, Interleaves (source.fields.map Pebble.Field.symbols)
          (source.methods.map Pebble.Method.symbols) parts ∧
        normalise ts = parts.flatten) ∧
    ∀ ts' : List Token, (∀ t ∈ ts', t.WellFormed) → ∀ v s s',
      (Session.start side ts).run (Rule.statement side levels) = (.ok v, s) →
      (Session.start side ts').run (Rule.statement side levels) = (.ok v, s') →
      ∃ k k' : Nat, s.cursor.position = k ∧ s'.cursor.position = k' ∧
        normalise (ts.take k) = normalise (ts'.take k') := by
  refine ⟨fun e s => normalise_expression hts, fun v s => normalise_statement hts,
    fun source => normalise_source hts, fun ts' hts' v s s' h h' => ?_⟩
  obtain ⟨k, hk, hsymbols⟩ := normalise_statement hts h
  obtain ⟨k', hk', hsymbols'⟩ := normalise_statement hts' h'
  exact ⟨k, k', hk, hk', hsymbols.trans hsymbols'.symm⟩

/-- One statement in two spellings: keywords in other cases, another kind of quotes, and an empty
else part or none. -/
theorem normalise_eq_symbols_else :
    let ts : List Token :=
      [⟨.identifier, ['I', 'f'], 0⟩, ⟨.integer, ['7'], 3⟩, ⟨.operator, ['=', '='], 5⟩,
        ⟨.character, ['\'', 'a', '\''], 8⟩, ⟨.identifier, ['d', 'o'], 12⟩,
        ⟨.identifier, ['e', 'l', 's', 'e'], 15⟩, ⟨.identifier, ['e', 'n', 'd'], 20⟩]
    let ts' : List Token :=
      [⟨.identifier, ['I', 'F'], 0⟩, ⟨.integer, ['7'], 3⟩, ⟨.operator, ['=', '='], 5⟩,
        ⟨.string, ['"', 'a', '"'], 8⟩, ⟨.identifier, ['D', 'O'], 12⟩,
        ⟨.identifier, ['E', 'N', 'D'], 15⟩]
    (∃ v s s', (Session.start .left ts).run (Rule.statement .left maxNesting) = (.ok v, s) ∧
      (Session.start .left ts').run (Rule.statement .left maxNesting) = (.ok v, s')) ∧
    normalise ts = normalise ts' := by
  intro ts ts'
  have hseven : (⟨.integer, ['7'], 3⟩ : Token).WellFormed :=
    ⟨fun _ => ⟨false, ['7'], rfl, by simp, List.forall_mem_singleton.2 rfl⟩, nofun⟩
  have hts : ∀ t ∈ ts, t.WellFormed := by
    simp only [ts, List.forall_mem_cons, List.not_mem_nil, false_implies, implies_true, and_true]
    exact ⟨⟨nofun, nofun⟩, hseven, ⟨nofun, nofun⟩, ⟨nofun, nofun⟩, ⟨nofun, nofun⟩, ⟨nofun, nofun⟩,
      ⟨nofun, nofun⟩⟩
  have hts' : ∀ t ∈ ts', t.WellFormed := by
    simp only [ts', List.forall_mem_cons, List.not_mem_nil, false_implies, implies_true, and_true]
    exact ⟨⟨nofun, nofun⟩, hseven, ⟨nofun, nofun⟩, ⟨nofun, nofun⟩, ⟨nofun, nofun⟩, ⟨nofun, nofun⟩⟩
  let tree : Stmt :=
    .ifElse (.binary ['=', '='] (.literal (.integer 7)) (.literal (.text ['a']))) [] []
  have hrun : (Session.start .left ts).run (Rule.statement .left maxNesting) =
      (.ok tree, ⟨⟨ts, 7⟩, .left, 0⟩) := by
    rfl
  have hrun' : (Session.start .left ts').run (Rule.statement .left maxNesting) =
      (.ok tree, ⟨⟨ts', 6⟩, .left, 0⟩) := by
    rfl
  obtain ⟨-, -, -, hsame⟩ := normalise_eq_symbols .left maxNesting hts
  obtain ⟨k, k', hk, hk', hsymbols⟩ := hsame ts' hts' tree _ _ hrun hrun'
  obtain rfl : 7 = k := Int.ofNat_inj.1 hk
  obtain rfl : 6 = k' := Int.ofNat_inj.1 hk'
  exact ⟨⟨tree, _, _, hrun, hrun'⟩, hsymbols⟩

end Pebble.Grammar

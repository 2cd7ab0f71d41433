import Pebble.Proofs.Grammar.Lookahead
import Pebble.Proofs.Grammar.Progress

/-!
Completeness of the rules: a rule that meets a phrase of its symbol, and after it a token with
which the phrase cannot go on, takes exactly that phrase.

Two readings of this are proved at once. In the strict one, the value is the one derived. In the
other one, constants may be numerals that cannot be read, so that the rule may also stop at such a
numeral; chains may then be folded to any side, and values are not compared.
-/

namespace Pebble.Grammar

variable {α β γ : Type} {strict : Prop}

/-- A result that goes on with a value, in the strict reading with `v`, or else has stopped at a
numeral. -/
def Settles (strict : Prop) (out : EStateM.Result Stop (List Token) β) (v : α)
    (next : α → EStateM.Result Stop (List Token) β) : Prop :=
  (∃ w, (strict → w = v) ∧ out = next w) ∨
    (¬ strict ∧ ∃ fault left, out = .error (.numeral fault) left)

namespace Settles

variable {r : Rule α} {v : α} {next : α → EStateM.Result Stop (List Token) β}

lemma pure {rest : List Token} : Settles strict ((Pure.pure v : Rule α) rest) v (.ok · rest) :=
  .inl ⟨v, fun _ => rfl, rfl⟩

/-- A result that goes on is what comes next after it. -/
lemma trans {out : EStateM.Result Stop (List Token) β} {u : γ}
    {last : γ → EStateM.Result Stop (List Token) β} (h : Settles strict out v next)
    (hnext : ∀ w, (strict → w = v) → Settles strict (next w) u last) :
    Settles strict out u last := by
  rcases h with ⟨w, hw, rfl⟩ | h
  · exact hnext w hw
  · exact .inr h

lemma bind {k : α → Rule β} {ts mid : List Token} {u : γ}
    {last : γ → EStateM.Result Stop (List Token) β} (h : Settles strict (r ts) v (.ok · mid))
    (hk : ∀ w, (strict → w = v) → Settles strict (k w mid) u last) :
    Settles strict ((r >>= k) ts) u last := by
  rcases h with ⟨w, hw, h⟩ | ⟨hs, fault, left, h⟩
  · rw [Rule.bind_ok h]
    exact hk w hw
  · exact .inr ⟨hs, fault, left, Rule.bind_error h⟩

lemma map {g : α → β} {ts mid : List Token} (h : Settles strict (r ts) v (.ok · mid)) :
    Settles strict ((r >>= fun w => Pure.pure (g w)) ts) (g v) (.ok · mid) :=
  h.bind fun w hw => .inl ⟨g w, fun hs => by rw [hw hs], rfl⟩

lemma eq_next {out : EStateM.Result Stop (List Token) β} (h : Settles True out v next) :
    out = next v := by
  rcases h with ⟨w, hw, rfl⟩ | ⟨hfalse, -⟩
  · rw [hw trivial]
  · exact absurd trivial hfalse

end Settles

/-- A rule takes every phrase of a symbol that is not followed by one of some terminals. -/
def Completes (strict : Prop) (r : Rule α) (p : Phrase α) (follow : List Terminal) : Prop :=
  ∀ ts v rest, p ts v → Clear follow rest → Settles strict (r (ts ++ rest)) v (.ok · rest)

/-! ### Lists and optional parts -/

lemma completes_name : Completes strict Rule.name Name [] := by
  rintro _ _ rest ⟨ht⟩ _
  exact .inl ⟨_, fun _ => rfl, Rule.name_of_eq ht⟩

section

variable {r : Rule α} {p : Phrase α} {cs follow : List Terminal}

lemma completes_after? {c : Char} (h : Completes strict r p follow) :
    Completes strict (Rule.after? c r) (Optional (After (.mark c) p)) (.mark c :: follow) := by
  intro ts v rest hv hclear
  rcases hv with _ | ⟨ht, hv⟩
  · rw [List.nil_append, Rule.after?, Rule.branch_of_clear (Pattern.fit_mark c)
      (hclear.mono (by simp))]
    exact .pure
  · rw [List.cons_append, Rule.after?, Rule.branch_of_eq (Pattern.fit_mark c) ht]
    exact (h _ _ rest hv (hclear.mono (by simp))).map

lemma completes_others [Rule.Orderly r] (h : Completes strict r p follow)
    (hcomma : .mark ',' ∉ follow) :
    Completes strict (get >>= Rule.others r) (Many (After (.mark ',') p))
      (.mark ',' :: follow) := by
  intro ts vs rest hvs hclear
  -- On the items; what follows each is a comma, or what follows all of them.
  induction hvs with
  | nil =>
    rw [List.nil_append, Rule.others_get, Rule.branch_of_clear (Pattern.fit_mark ',')
      (hclear.mono (by simp))]
    exact .pure
  | @cons _ us _ _ hv hvs ih =>
    obtain ⟨ht, hv⟩ := hv
    have hmid : Clear follow (us ++ rest) :=
      begins_after.clear_many hvs (by simpa using hcomma) (hclear.mono (by simp))
    rw [List.append_assoc, List.cons_append, Rule.others_get,
      Rule.branch_of_eq (Pattern.fit_mark ',') ht]
    refine (h _ _ _ hv hmid).bind fun w hw => ih.bind fun ws hws => ?_
    exact .inl ⟨w :: ws, fun hs => by rw [hw hs, hws hs], rfl⟩

lemma completes_commaSeparated [Rule.Orderly r] (h : Completes strict r p follow)
    (hcomma : .mark ',' ∉ follow) :
    Completes strict (Rule.commaSeparated r) (Separated p) (.mark ',' :: follow) := by
  rintro _ _ rest ⟨hv, hvs⟩ hclear
  rename_i ts us v vs
  have hmid : Clear follow (us ++ rest) :=
    begins_after.clear_many hvs (by simpa using hcomma) (hclear.mono (by simp))
  rw [Rule.commaSeparated_eq, List.append_assoc]
  refine (h _ _ _ hv hmid).bind fun w hw => ?_
  refine (completes_others h hcomma _ _ _ hvs hclear).bind fun ws hws => ?_
  exact .inl ⟨w :: ws, fun hs => by rw [hw hs, hws hs], rfl⟩

end

lemma completes_parameters : Completes strict Rule.parameters (Listed Name) [] := by
  rintro _ _ rest (hr | ⟨hvs, hr⟩) _
  · rw [Rule.parameters, List.cons_append, Rule.branch_of_eq (Pattern.fit_mark ')') hr,
      List.nil_append]
    exact .pure
  · rw [Rule.parameters, List.append_assoc, Rule.branch_of_clear (Pattern.fit_mark ')')
      (begins_name.separated.clear hvs (by decide) _)]
    refine (completes_commaSeparated completes_name (by simp) _ _ _ hvs ?_).bind fun ws hws => ?_
    · rw [List.cons_append, clear_cons, hr]
      decide
    · rw [Rule.discard_bind, List.cons_append, Rule.demand_of_eq (Pattern.fit_mark ')') hr]
      exact .inl ⟨ws, hws, rfl⟩

/-! ### Expressions -/

/-- Constants that can be read, in the strict reading as what they stand for. -/
def Readable (strict : Prop) (constant : Token → Value → Prop) : Prop :=
  ∀ t v, constant t v → ∃ out, t.reading? = some out ∧ (strict → out = .ok v)

section

variable {constant : Token → Value → Prop} {side side' : Associativity} {expr : Phrase Expr}
  {inner : Rule Expr} [Rule.Orderly inner]

lemma completes_arguments (hi : Completes strict inner expr (Expression.next true))
    (hb : Begins expr Expression.first) :
    Completes strict (Rule.arguments inner) (Listed expr) [] := by
  rintro _ _ rest (hr | ⟨hvs, hr⟩) _
  · rw [Rule.arguments, List.cons_append, Rule.branch_of_eq (Pattern.fit_mark ')') hr,
      List.nil_append]
    exact .pure
  · rw [Rule.arguments, List.append_assoc, Rule.branch_of_clear (Pattern.fit_mark ')')
      (hb.separated.clear hvs (by decide) _)]
    refine (completes_commaSeparated hi (by decide) _ _ _ hvs ?_).bind fun ws hws => ?_
    · rw [List.cons_append, clear_cons, hr]
      decide
    · rw [List.cons_append, Rule.branch_of_eq (Pattern.fit_mark ')') hr]
      exact .inl ⟨ws, hws, rfl⟩

lemma completes_primary (hc : Readable strict constant)
    (hi : Completes strict inner expr (Expression.next true))
    (hb : Begins expr Expression.first) :
    Completes strict (Rule.primary inner) (Primary constant expr) [.mark '('] := by
  intro ts e rest he hclear
  -- by what the expression begins with, which is what the rule looks at
  cases he with
  | constant hv =>
    obtain ⟨out, hout, hs⟩ := hc _ _ hv
    rw [List.cons_append, Rule.primary_cons, hout]
    rcases out with fault | w
    · exact .inr ⟨fun h => by simp at hs; exact hs h, fault, _, rfl⟩
    · exact .inl ⟨.literal w, fun h => by rw [Except.ok.inj (hs h)], rfl⟩
  | «variable» ht =>
    rw [List.cons_append, Rule.primary_of_name ht, Rule.named, List.nil_append,
      Rule.branch_of_clear (Pattern.fit_mark '(') hclear]
    exact .pure
  | call ht hl has =>
    rw [List.cons_append, List.cons_append, Rule.primary_of_name ht, Rule.named,
      Rule.branch_of_eq (Pattern.fit_mark '(') hl]
    exact (completes_arguments hi hb _ _ rest has (by simp [Clear])).map
  | group hl he hr =>
    rw [List.cons_append, Rule.primary_of_group hl, Rule.grouped, List.append_assoc]
    refine (hi _ _ _ he ?_).bind fun w hw => ?_
    · rw [List.cons_append, clear_cons, hr]
      decide
    · rw [Rule.discard_bind, List.cons_append, Rule.demand_of_eq (Pattern.fit_mark ')') hr]
      exact .inl ⟨.group w, fun hs => by rw [hw hs], rfl⟩

/-- After a secondary expression, what is left is read by the loop for its members. -/
lemma secondary_settles (hc : Readable strict constant)
    (hi : Completes strict inner expr (Expression.next true))
    (hb : Begins expr Expression.first) {ts : List Token} {e : Expr}
    (h : Secondary constant expr ts e) {rest : List Token} (hclear : Clear [.mark '('] rest) :
    Settles strict (Rule.secondary inner (ts ++ rest)) e
      fun w => (get >>= Rule.members inner w) rest := by
  -- On the members, the last of which is read by a round of the loop: the receiver settles first,
  -- and what is left goes on with the loop.
  induction h generalizing rest with
  | primary hp =>
    exact (completes_primary hc hi hb _ _ rest hp hclear).bind fun w hw => .inl ⟨w, hw, rfl⟩
  | member _ hd hn ih =>
    rw [List.append_assoc]
    refine (ih (by simp [hd]; decide)).trans fun w hw => ?_
    rw [Rule.members_get, List.cons_append, Rule.branch_of_eq (Pattern.fit_mark '.') hd,
      List.cons_append, Rule.bind_ok (Rule.name_of_eq hn), List.nil_append,
      Rule.branch_of_clear (Pattern.fit_mark '(') hclear]
    exact .inl ⟨.member w _, fun hs => by rw [hw hs], rfl⟩
  | invoke _ hd hn hl has ih =>
    rw [List.append_assoc]
    refine (ih (by simp [hd]; decide)).trans fun w hw => ?_
    rw [Rule.members_get, List.cons_append, Rule.branch_of_eq (Pattern.fit_mark '.') hd,
      List.cons_append, Rule.bind_ok (Rule.name_of_eq hn), List.cons_append,
      Rule.branch_of_eq (Pattern.fit_mark '(') hl]
    refine (completes_arguments hi hb _ _ rest has (by simp [Clear])).bind fun args hargs => ?_
    exact .inl ⟨.invoke w _ args, fun hs => by rw [hw hs, hargs hs], rfl⟩

lemma completes_secondary (hc : Readable strict constant)
    (hi : Completes strict inner expr (Expression.next true))
    (hb : Begins expr Expression.first) :
    Completes strict (Rule.secondary inner) (Secondary constant expr) (Secondary.next true) := by
  intro ts e rest he hclear
  refine (secondary_settles hc hi hb he (hclear.mono (by decide))).trans fun w hw => ?_
  rw [Rule.members_get, Rule.branch_of_clear (Pattern.fit_mark '.') (hclear.mono (by decide))]
  exact .inl ⟨w, hw, rfl⟩

end

section

variable {side side' : Associativity} {level : Level} {p : Phrase Expr} {operand : Rule Expr}
  [Rule.Orderly operand] {follow : List Terminal}

lemma completes_links (ho : Completes strict operand p follow)
    (hd : ∀ c ∈ Level.terminals level, c ∉ follow) :
    Completes strict (get >>= Rule.links (level.operators.map .operator) operand)
      (Many (Link level p)) (follow ++ Level.terminals level) := by
  intro ts vs rest hvs hclear
  induction hvs with
  | nil =>
    rw [List.nil_append, Rule.links_get, Rule.bind_ok
      (Rule.accept?_of_clear (Pattern.fit_operators _) (hclear.mono (by simp [Level.terminals])))]
    exact .pure
  | @cons _ us _ _ hv hvs ih =>
    obtain ⟨ht, hv⟩ := hv
    -- behind an operand there is an operator of the level or what follows the chain
    have hmid : Clear follow (us ++ rest) :=
      begins_link.clear_many hvs hd (hclear.mono (by simp))
    rw [List.append_assoc, List.cons_append, Rule.links_get,
      Rule.bind_ok (Rule.accept?_of_mem (Pattern.fit_operators _) ht)]
    refine (ho _ _ _ hv hmid).bind fun w hw => ih.bind fun ws hws => ?_
    exact .inl ⟨(_, w) :: ws, fun hs => by rw [hw hs, hws hs], rfl⟩

lemma completes_level (hside : strict → side = side') (ho : Completes strict operand p follow)
    (hd : ∀ c ∈ Level.terminals level, c ∉ follow) :
    Completes strict (Rule.level side level operand) (Chain side' level p)
      (follow ++ Level.terminals level) := by
  intro ts e rest he hclear
  obtain ⟨us, vs, first, links, rfl, hfirst, hlinks, rfl⟩ := he.flat
  have hmid : Clear follow (vs ++ rest) :=
    begins_link.clear_many hlinks hd (hclear.mono (by simp))
  rw [Rule.level, Rule.chain_eq, List.append_assoc]
  refine (ho _ _ _ hfirst hmid).bind fun w hw => ?_
  refine (completes_links ho hd _ _ _ hlinks hclear).bind fun ws hws => ?_
  exact .inl ⟨side.fold .binary w ws, fun hs => by rw [hw hs, hws hs, hside hs], rfl⟩

end

section

variable {constant : Token → Value → Prop} {side side' : Associativity}

/-- An expression is read with at least the levels with which it is derived. -/
lemma completes_expression (hc : Readable strict constant) (hconst : constant ≤ IsConstant)
    (hside : strict → side = side') {levels most : Nat} (hle : levels ≤ most) :
    Completes strict (Rule.expression side most) (Expression constant side' levels)
      (Expression.next true) := by
  induction levels generalizing most with
  | zero => exact fun _ _ _ h => h.elim
  | succ levels ih =>
    obtain ⟨most, rfl⟩ : ∃ k, most = k + 1 := ⟨most - 1, by omega⟩
    have h := completes_secondary hc (ih (by omega : levels ≤ most))
      (begins_expression hconst side' levels)
    exact completes_level hside (completes_level hside (completes_level hside
      (completes_level hside h (by decide)) (by decide)) (by decide)) (by decide)

end

/-! ### Statements -/

/-- A rule for blocks takes every block that is followed by a terminator, which begins no
statement. -/
def Encloses (strict : Prop) (body : List Pattern → Rule (List Stmt)) (block : Phrase (List Stmt)) :
    Prop :=
  ∀ ⦃terminators cs⦄, Pattern.Fit terminators cs → (∀ c ∈ Statement.first, c ∉ cs) →
    ∀ ⦃ts vs t⦄, block ts vs → t.terminal ∈ cs → ∀ rest,
      Settles strict (body terminators (ts ++ t :: rest)) vs (.ok · (t :: rest))

section

variable {expr : Phrase Expr} {block : Phrase (List Stmt)} {inner : Rule Expr}
  {body : List Pattern → Rule (List Stmt)} {rest : List Token}

/-- An expression is read up to a token with which it cannot go on. -/
lemma Completes.upTo (hi : Completes strict inner expr (Expression.next true)) {ts us : List Token}
    {e : Expr} {t : Token} {c : Terminal} (he : expr ts e) (ht : t.terminal = c)
    (hc : c ∉ Expression.next true) : Settles strict (inner (ts ++ t :: us)) e (.ok · (t :: us)) :=
  hi ts e (t :: us) he (clear_cons.2 (ht ▸ hc))

/-- A block is read up to the `END` that closes the statement. -/
lemma Encloses.closed (h : Encloses strict body block) {ts : List Token} {vs : List Stmt}
    {e : Token} (hvs : block ts vs) (he : e.terminal = .word .END) {f : List Stmt → α} {v : α}
    (hf : strict → f vs = v) :
    Settles strict
      ((body [.keyword .END] >>= fun ws => Rule.closing >>= fun _ => pure (f ws))
        (ts ++ e :: rest)) v (.ok · rest) := by
  refine (h (Pattern.fit_keyword .END) (by decide) hvs (by simp [he]) rest).bind fun ws hws => ?_
  rw [Rule.closing_of_eq he]
  exact .inl ⟨f ws, fun hs => by rw [hws hs, hf hs], rfl⟩

lemma Settles.semicolon {s : Token} (hs : s.terminal = .mark ';') {v w : α} (h : strict → w = v) :
    Settles strict ((Rule.semicolon >>= fun _ => (Pure.pure w : Rule α)) (s :: rest)) v
      (.ok · rest) := by
  rw [Rule.semicolon_of_eq hs]
  exact .inl ⟨w, h, rfl⟩

lemma completes_declaration (hi : Completes strict inner expr (Expression.next true)) {n s : Token}
    {ts : List Token} {value : Option Expr} (hn : n.terminal = .name)
    (hvalue : Optional (After (.mark '=') expr) ts value) (hs : s.terminal = .mark ';') :
    Settles strict (Rule.declaration inner (n :: (ts ++ s :: rest)))
      (.declaration n.literal value) (.ok · rest) := by
  rw [Rule.declaration, Rule.bind_ok (Rule.name_of_eq hn)]
  refine (completes_after? hi ts value _ hvalue ?_).bind fun w hw => ?_
  · rw [clear_cons, hs]
    decide
  · exact .semicolon hs fun h => by rw [hw h]

lemma completes_ifElse (hi : Completes strict inner expr (Expression.next true))
    (hbody : Encloses strict body block) {d e : Token} {ts us vs : List Token} {c : Expr}
    {thenBody elseBody : List Stmt} (hc : expr ts c) (hd : d.terminal = .word .DO)
    (hthen : block us thenBody) (helse : Else block vs elseBody) (he : e.terminal = .word .END) :
    Settles strict (Rule.ifElse inner body (ts ++ d :: (us ++ (vs ++ e :: rest))))
      (.ifElse c thenBody elseBody) (.ok · rest) := by
  rw [Rule.ifElse_eq]
  refine (hi.upTo hc hd (by decide)).bind fun w hw => ?_
  rw [Rule.demandWord_of_eq hd]
  have hfit := Pattern.fit_keywords .ELSE .END
  have hstart : ∀ c ∈ Statement.first, c ∉ [Terminal.word .ELSE, .word .END] := by decide
  -- the first block ends at `ELSE` or at `END`
  rcases helse with _ | ⟨ht, helse⟩
  · refine (hbody hfit hstart hthen (by simp [he]) rest).bind fun ws hws => ?_
    rw [Rule.elsePart_of_end he]
    exact .inl ⟨.ifElse w ws [], fun hs => by rw [hw hs, hws hs], rfl⟩
  · rw [List.cons_append]
    refine (hbody hfit hstart hthen (by simp [ht]) _).bind fun ws hws => ?_
    rw [Rule.elsePart_of_else ht]
    exact hbody.closed helse he fun hs => by rw [hw hs, hws hs]

lemma completes_forIn (hi : Completes strict inner expr (Expression.next true))
    (hbody : Encloses strict body block) {n i d e : Token} {ts us : List Token} {v : Expr}
    {vs : List Stmt} (hn : n.terminal = .name) (hin : i.terminal = .word .IN) (hv : expr ts v)
    (hd : d.terminal = .word .DO) (hvs : block us vs) (he : e.terminal = .word .END) :
    Settles strict (Rule.forIn inner body (n :: i :: (ts ++ d :: (us ++ e :: rest))))
      (.forIn n.literal v vs) (.ok · rest) := by
  rw [Rule.forIn, Rule.bind_ok (Rule.name_of_eq hn), Rule.demandWord_of_eq hin]
  refine (hi.upTo hv hd (by decide)).bind fun w hw => ?_
  rw [Rule.demandWord_of_eq hd]
  exact hbody.closed hvs he fun hs => by rw [hw hs]

lemma completes_whileDo (hi : Completes strict inner expr (Expression.next true))
    (hbody : Encloses strict body block) {d e : Token} {ts us : List Token} {c : Expr}
    {vs : List Stmt} (hc : expr ts c) (hd : d.terminal = .word .DO) (hvs : block us vs)
    (he : e.terminal = .word .END) :
    Settles strict (Rule.whileDo inner body (ts ++ d :: (us ++ e :: rest)))
      (.whileDo c vs) (.ok · rest) := by
  rw [Rule.whileDo]
  refine (hi.upTo hc hd (by decide)).bind fun w hw => ?_
  rw [Rule.demandWord_of_eq hd]
  exact hbody.closed hvs he fun hs => by rw [hw hs]

lemma completes_returning (hi : Completes strict inner expr (Expression.next true)) {s : Token}
    {ts : List Token} {v : Expr} (hv : expr ts v) (hs : s.terminal = .mark ';') :
    Settles strict (Rule.returning inner (ts ++ s :: rest)) (.return v) (.ok · rest) := by
  rw [Rule.returning]
  refine (hi.upTo hv hs (by decide)).bind fun w hw => ?_
  exact .semicolon hs fun h => by rw [hw h]

lemma completes_expressionStatement (hi : Completes strict inner expr (Expression.next true))
    {s : Token} {ts : List Token} {v : Expr} (hv : expr ts v) (hs : s.terminal = .mark ';') :
    Settles strict (Rule.assignment inner (ts ++ s :: rest)) (.expression v) (.ok · rest) := by
  rw [Rule.assignment]
  refine (hi.upTo hv hs (by decide)).bind fun w hw => ?_
  have hclear : Clear [.mark '='] (s :: rest) := by
    rw [clear_cons, hs]
    decide
  rw [Rule.after?_bind, Rule.bind_ok (Rule.accept?_of_clear (Pattern.fit_mark '=') hclear)]
  exact .semicolon hs fun h => by rw [hw h]

lemma completes_assignment (hi : Completes strict inner expr (Expression.next true))
    {q s : Token} {ts us : List Token} {e v : Expr} (he : expr ts e) (hq : q.terminal = .mark '=')
    (hv : expr us v) (hs : s.terminal = .mark ';') :
    Settles strict (Rule.assignment inner (ts ++ q :: (us ++ s :: rest))) (.assignment e v)
      (.ok · rest) := by
  rw [Rule.assignment]
  refine (hi.upTo he hq (by decide)).bind fun w hw => ?_
  rw [Rule.after?_bind, Rule.bind_ok (Rule.accept?_of_mem (Pattern.fit_mark '=') (by simp [hq]))]
  refine (hi.upTo hv hs (by decide)).bind fun w' hw' => ?_
  exact .semicolon hs fun h => by rw [hw h, hw' h]

/-- Every statement is read by the rule that its first token chooses. -/
lemma completes_statementOf (hi : Completes strict inner expr (Expression.next true))
    (hb : Begins expr Expression.first) (hbody : Encloses strict body block) :
    Completes strict (Rule.statementOf inner body) (Statement expr block) [] := by
  have hclear : ∀ {ts : List Token} {e : Expr} (us : List Token), expr ts e →
      Clear Statement.words (ts ++ us) := fun us he => hb.clear he (by decide) us
  intro ts v rest hv _
  -- a keyword leads to its rule; an expression begins with none of the keywords
  cases hv with
  | declaration ht hn hvalue hs =>
    simpa [Rule.statementOf, Rule.branch_word ht] using completes_declaration hi hn hvalue hs
  | ifElse ht hc hd hbod helse he =>
    simpa [Rule.statementOf, Rule.branch_word ht] using
      completes_ifElse hi hbody hc hd hbod helse he
  | forIn ht hn hin hv hd hbod he =>
    simpa [Rule.statementOf, Rule.branch_word ht] using
      completes_forIn hi hbody hn hin hv hd hbod he
  | whileDo ht hc hd hbod he =>
    simpa [Rule.statementOf, Rule.branch_word ht] using completes_whileDo hi hbody hc hd hbod he
  | returning ht hv hs =>
    simpa [Rule.statementOf, Rule.branch_word ht] using completes_returning hi hv hs
  | expression hv hs =>
    rw [List.append_assoc, statementOf_of_clear (hclear _ hv)]
    exact completes_expressionStatement hi hv hs
  | assignment he hq hv hs =>
    rw [List.append_assoc, statementOf_of_clear (hclear _ he)]
    simpa using completes_assignment hi he hq hv hs

lemma encloses_blockOf {p : Phrase Stmt} {statement : Rule Stmt} [Rule.Advances statement]
    (hs : Completes strict statement p []) (hb : Begins p Statement.first) :
    Encloses strict (Rule.blockOf statement) (Many p) := by
  intro terminators cs hfit hstart ts vs t hvs ht rest
  -- On the statements: none begins like a terminator, so the rule does not end before them.
  induction hvs with
  | nil =>
    rw [List.nil_append, Rule.blockOf_cons, if_pos ((hfit t).2 ht)]
    exact .pure
  | @cons ts us v vs hv _ ih =>
    obtain ⟨u, us', heq, hu⟩ := hb.append hv (us ++ t :: rest)
    rw [List.append_assoc, heq, Rule.blockOf_cons, if_neg fun h => hstart _ hu ((hfit u).1 h),
      ← heq]
    refine (hs _ _ _ hv (by simp [Clear])).bind fun w hw => ih.bind fun ws hws => ?_
    exact .inl ⟨w :: ws, fun h => by rw [hw h, hws h], rfl⟩

end

section

variable {constant : Token → Value → Prop} {side side' : Associativity}

/-- A block is read with at least the levels with which it is derived. -/
lemma encloses_block (hc : Readable strict constant) (hconst : constant ≤ IsConstant)
    (hside : strict → side = side') {levels most : Nat} (hle : levels ≤ most) :
    Encloses strict (Rule.block side most) (Block constant side' levels) := by
  induction levels generalizing most with
  | zero => exact fun _ _ _ _ _ _ _ h => h.elim
  | succ levels ih =>
    obtain ⟨most, rfl⟩ : ∃ k, most = k + 1 := ⟨most - 1, by omega⟩
    have hlt : levels ≤ most := by omega
    have hbegins := begins_expression hconst side' levels
    have hs := completes_statementOf (completes_expression hc hconst hside hlt) hbegins (ih hlt)
    rw [← Rule.statement_eq] at hs
    exact encloses_blockOf hs (begins_statement hbegins)

end

/-! ### Sources -/

section

variable {expr : Phrase Expr} {block : Phrase (List Stmt)} {inner : Rule Expr}
  {body : List Pattern → Rule (List Stmt)} {rest : List Token}

lemma completes_field (hi : Completes strict inner expr (Expression.next true)) {n s : Token}
    {ts us : List Token} {typeName : Option Text} {value : Option Expr} (hn : n.terminal = .name)
    (htype : Optional (After (.mark ':') Name) ts typeName)
    (hvalue : Optional (After (.mark '=') expr) us value) (hs : s.terminal = .mark ';') :
    Settles strict (Rule.field inner (n :: (ts ++ (us ++ s :: rest))))
      ⟨n.literal, typeName, value⟩ (.ok · rest) := by
  rw [Rule.field, Rule.bind_ok (Rule.name_of_eq hn)]
  refine (completes_after? completes_name ts typeName _ htype ?_).bind fun w hw => ?_
  · -- behind the type there is the mark of a value or the semicolon
    rcases hvalue with _ | hvalue
    · rw [List.nil_append, clear_cons, hs]
      decide
    · exact begins_after.clear hvalue (by decide) _
  refine (completes_after? hi us value _ hvalue ?_).bind fun w' hw' => ?_
  · rw [clear_cons, hs]
    decide
  · exact .semicolon hs fun h => by rw [hw h, hw' h]

lemma completes_method (hbody : Encloses strict body block) {n l d e : Token} {ts us : List Token}
    {parameters : List Text} {vs : List Stmt} (hn : n.terminal = .name)
    (hl : l.terminal = .mark '(') (hps : Listed Name ts parameters) (hd : d.terminal = .word .DO)
    (hvs : block us vs) (he : e.terminal = .word .END) :
    Settles strict (Rule.method body (n :: l :: (ts ++ d :: (us ++ e :: rest))))
      ⟨n.literal, parameters, vs⟩ (.ok · rest) := by
  rw [Rule.method, Rule.bind_ok (Rule.name_of_eq hn), Rule.discard_bind,
    Rule.demand_of_eq (Pattern.fit_mark '(') hl]
  refine (completes_parameters _ _ _ hps (by simp [Clear])).bind fun w hw => ?_
  rw [Rule.demandWord_of_eq hd]
  exact hbody.closed hvs he fun hs => by rw [hw hs]

lemma completes_item (hi : Completes strict inner expr (Expression.next true))
    (hbody : Encloses strict body block) :
    Completes strict (Rule.item inner body) (Item expr block) [] := by
  intro ts v rest hv _
  rcases hv with hv | hv
  · obtain ⟨ht, hn, htype, hvalue, hs⟩ := hv
    rw [List.cons_append, Rule.item_of_let ht]
    simpa using (completes_field hi hn htype hvalue hs).map (g := Pebble.Item.field)
  · obtain ⟨ht, hn, hl, hps, hd, hvs, he⟩ := hv
    rw [List.cons_append, Rule.item_of_def ht]
    simpa using (completes_method hbody hn hl hps hd hvs he).map (g := Pebble.Item.method)

end

/-- A source is read with at least the levels with which it is derived. -/
lemma completes_source {constant : Token → Value → Prop} (side : Associativity)
    {side' : Associativity} (hc : Readable strict constant) (hconst : constant ≤ IsConstant)
    (hside : strict → side = side') {levels most : Nat} (hle : levels ≤ most) {ts : List Token}
    {s : Pebble.Source} (h : Program constant side' levels ts s) :
    Settles strict (Rule.source side most ts) s (.ok · []) := by
  obtain ⟨items, hitems, rfl⟩ := Source.flat h
  have hitem := completes_item (completes_expression hc hconst hside hle)
    (encloses_block hc hconst hside hle)
  rw [Rule.source_eq]
  refine Settles.map ?_
  clear h
  -- On the items, each of which is read whatever comes after it.
  induction hitems with
  | nil => exact .pure
  | @cons ts us v vs hv _ ih =>
    obtain ⟨t, us', heq, _⟩ := begins_item.append hv us
    rw [heq, Rule.items_get_cons, ← heq]
    refine (hitem _ _ _ hv (by simp [Clear])).bind fun w hw => ih.bind fun ws hws => ?_
    exact .inl ⟨w :: ws, fun hs => by rw [hw hs, hws hs], rfl⟩

end Pebble.Grammar

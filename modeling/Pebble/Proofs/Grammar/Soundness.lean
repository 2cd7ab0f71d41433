import Pebble.Proofs.Grammar.Constant
import Pebble.Proofs.Grammar.Derivation
import Pebble.Proofs.Grammar.Run

/-!
Soundness of the rules: the tokens that a rule has taken when it gives a value are derived from
its symbol, with that value; those that it has taken when it stops begin some phrase of its
symbol, so that they could have gone on.
-/

namespace Pebble.Grammar

variable {α β γ δ : Type} {P : Token → Prop}

/-- Whether tokens begin a phrase. -/
def Opens (p : Phrase α) (ts : List Token) : Prop := ∃ more v, p (ts ++ more) v

/-- Among tokens of a class and after the tokens `taken`, a rule that gives a value has completed a
phrase of `p`, and one that stops has begun a phrase of `q`. -/
def Reads (P : Token → Prop) (taken : List Token) (r : Rule α) (p : Phrase α) (q : Phrase γ) :
    Prop :=
  ∀ ts, (∀ t ∈ ts, P t) →
    match r ts with
    | .ok v rest => ∃ used, ts = used ++ rest ∧ p (taken ++ used) v
    | .error _ rest => ∃ used, ts = used ++ rest ∧ Opens q (taken ++ used)

namespace Reads

variable {taken : List Token} {p : Phrase α} {q : Phrase γ} {k : β → Rule α}

lemma pure {v : α} (h : p taken v) : Reads P taken (Pure.pure v) p q :=
  fun _ _ => ⟨[], rfl, by simpa using h⟩

lemma refuse {cause : Complaint} (h : Opens q taken) : Reads P taken (Rule.refuse cause) p q :=
  fun _ _ => ⟨[], rfl, by simpa using h⟩

lemma ok {r : Rule α} (h : Reads P [] r p q) {ts rest : List Token} {v : α}
    (hts : ∀ t ∈ ts, P t) (hrun : r ts = .ok v rest) : ∃ used, ts = used ++ rest ∧ p used v := by
  have hread := h ts hts
  rwa [hrun] at hread

lemma append {r : Rule α} {used : List Token} (h : Reads P (taken ++ used) r p q)
    {ts : List Token} (hts : ∀ t ∈ ts, P t) :
    match r ts with
    | .ok v rest => ∃ all, used ++ ts = all ++ rest ∧ p (taken ++ all) v
    | .error _ rest => ∃ all, used ++ ts = all ++ rest ∧ Opens q (taken ++ all) := by
  have hread := h ts hts
  rcases hr : r ts with ⟨v, rest⟩ | ⟨stop, rest⟩ <;> rw [hr] at hread
  · obtain ⟨more, rfl, hv⟩ := hread
    exact ⟨used ++ more, by simp, by simpa using hv⟩
  · obtain ⟨more, rfl, ho⟩ := hread
    exact ⟨used ++ more, by simp, by simpa using ho⟩

/-- A rule is read as its first part, which may stop, and then the rest after what that has
taken. -/
lemma bind {g : Rule β} {pg : Phrase β} {qg : Phrase δ} (hg : Reads P [] g pg qg)
    (hstop : ∀ used, Opens qg used → Opens q (taken ++ used))
    (hk : ∀ used v, pg used v → Reads P (taken ++ used) (k v) p q) :
    Reads P taken (g >>= k) p q := by
  intro ts hts
  have hg := hg ts hts
  rw [Rule.bind_apply]
  rcases hr : g ts with ⟨v, rest⟩ | ⟨stop, rest⟩
  · rw [hr] at hg
    obtain ⟨used, rfl, hv⟩ := hg
    exact (hk used v hv).append fun t ht => hts t (List.mem_append_right _ ht)
  · rw [hr] at hg
    obtain ⟨used, rfl, hq⟩ := hg
    exact ⟨used, rfl, hstop used hq⟩

lemma accept? {k : Option Token → Rule α} {patterns : List Pattern} {cs : List Terminal}
    (fit : Pattern.Fit patterns cs)
    (yes : ∀ t : Token, t.terminal ∈ cs → Reads P (taken ++ [t]) (k (some t)) p q)
    (no : Reads P taken (k none) p q) : Reads P taken (Rule.accept? patterns >>= k) p q := by
  intro ts hts
  rcases ts with _ | ⟨t, ts⟩
  · rw [Rule.bind_ok (Rule.accept?_of_clear fit (clear_nil _))]
    exact no [] hts
  · by_cases h : t.terminal ∈ cs
    · rw [Rule.bind_ok (Rule.accept?_of_mem fit h)]
      exact (yes t h).append (List.forall_mem_cons.1 hts).2
    · rw [Rule.bind_ok (Rule.accept?_of_clear fit (clear_cons.2 h))]
      exact no (t :: ts) hts

lemma branch {pattern : Pattern} {c : Terminal} (fit : Pattern.Fit [pattern] [c]) {x y : Rule α}
    (yes : ∀ t : Token, t.terminal = c → Reads P (taken ++ [t]) x p q) (no : Reads P taken y p q) :
    Reads P taken (Rule.accepts pattern >>= fun found => if found = true then x else y) p q := by
  rw [Rule.accepts_bind]
  refine accept? fit (fun t ht => ?_) (by simpa using no)
  simpa using yes t (by simpa using ht)

lemma demand {pattern : Pattern} {kind : ComplaintKind} {c : Terminal} {k : Token → Rule α}
    (fit : Pattern.Fit [pattern] [c]) (missing : Opens q taken)
    (yes : ∀ t : Token, t.terminal = c → Reads P (taken ++ [t]) (k t) p q) :
    Reads P taken (Rule.demand pattern kind >>= k) p q := by
  rw [Rule.demand_bind]
  exact accept? fit (fun t ht => yes t (by simpa using ht)) (refuse missing)

lemma demandWord {w : Keyword} {k : Unit → Rule α} (missing : Opens q taken)
    (yes : ∀ t : Token, t.terminal = .word w → Reads P (taken ++ [t]) (k ()) p q) :
    Reads P taken (Rule.demandWord w >>= k) p q := by
  rw [Rule.demandWord, Rule.discard_bind]
  exact demand (Pattern.fit_keyword w) missing yes

lemma semicolon {k : Unit → Rule α} (missing : Opens q taken)
    (yes : ∀ t : Token, t.terminal = .mark ';' → Reads P (taken ++ [t]) (k ()) p q) :
    Reads P taken (Rule.semicolon >>= k) p q := by
  rw [Rule.semicolon_bind]
  exact accept? (Pattern.fit_mark ';') (fun t ht => yes t (by simpa using ht)) (refuse missing)

lemma name {k : Text → Rule α} (missing : Opens q taken)
    (yes : ∀ t : Token, t.terminal = .name → Reads P (taken ++ [t]) (k t.literal) p q) :
    Reads P taken (Rule.name >>= k) p q := by
  intro ts hts
  by_cases hclear : Clear [.name] ts
  · rw [Rule.bind_error (Rule.name_of_clear hclear)]
    exact ⟨[], rfl, by simpa using missing⟩
  · rcases ts with _ | ⟨t, ts⟩
    · exact absurd (clear_nil _) hclear
    have ht : t.terminal = .name := by simpa using hclear
    rw [Rule.bind_ok (Rule.name_of_eq ht)]
    exact (yes t ht).append (List.forall_mem_cons.1 hts).2

lemma map {g : Rule β} {f : β → α} {pg : Phrase β} {qg : Phrase δ} (hg : Reads P taken g pg qg)
    (hp : ∀ ts v, pg ts v → p ts (f v)) (hq : ∀ ts, Opens qg ts → Opens q ts) :
    Reads P taken (g >>= fun v => Pure.pure (f v)) p q := by
  intro ts hts
  have hg := hg ts hts
  rw [Rule.bind_apply]
  rcases hr : g ts with ⟨v, rest⟩ | ⟨stop, rest⟩ <;> rw [hr] at hg
  · obtain ⟨used, rfl, hv⟩ := hg
    exact ⟨used, rfl, hp _ v hv⟩
  · obtain ⟨used, rfl, ho⟩ := hg
    exact ⟨used, rfl, hq _ ho⟩

lemma cons {t : Token} {r : Rule α} (h : Reads P [t] r p q) {ts : List Token}
    (hts : ∀ t ∈ ts, P t) :
    match r ts with
    | .ok v rest => ∃ used, t :: ts = used ++ rest ∧ p used v
    | .error _ rest => ∃ used, t :: ts = used ++ rest ∧ Opens q used := by
  have h : Reads P ([] ++ [t]) r p q := h
  exact h.append hts

end Reads

/-! ### Lists and optional parts -/

lemma Opens.of_self {p : Phrase α} {ts : List Token} {v : α} (h : p ts v) : Opens p ts :=
  ⟨[], v, by simpa using h⟩

section

variable {p q : Phrase α} {r : Rule α}

lemma opens_name : Opens Name [] :=
  ⟨[Terminal.name.token], _, .name (Terminal.terminal_token _)⟩

lemma reads_name : Reads P [] Rule.name Name Name := by
  rw [← bind_pure Rule.name]
  exact .name opens_name fun t ht => .pure (.name ht)

lemma Opens.after {c : Terminal} {t : Token} (ht : t.terminal = c) {ts : List Token}
    (h : Opens q ts) : Opens (After c q) (t :: ts) := by
  obtain ⟨more, v, h⟩ := h
  exact ⟨more, v, .after ht h⟩

lemma reads_after? {c : Char} (hr : Reads P [] r p q) :
    Reads P [] (Rule.after? c r) (Optional (After (.mark c) p)) (Optional (After (.mark c) q)) := by
  refine .branch (Pattern.fit_mark c) (fun t ht => ?_) (.pure .absent)
  refine .bind hr (fun used hq => ?_) fun used v hv => .pure (.present (.after ht hv))
  obtain ⟨more, v, h⟩ := hq.after ht
  exact ⟨more, some v, .present h⟩

/-- A first item opens the list that a list of others opens. -/
lemma Opens.many {ts us : List Token} {v : α} (hv : q ts v) (h : Opens (Many q) us) :
    Opens (Many q) (ts ++ us) := by
  obtain ⟨more, vs, h⟩ := h
  exact ⟨more, v :: vs, by simpa using Many.cons hv h⟩

lemma Opens.many_single {ts : List Token} (h : Opens q ts) : Opens (Many q) ts := by
  obtain ⟨more, v, h⟩ := h
  exact ⟨more, [v], by simpa using Many.cons h .nil⟩

lemma reads_others (hpq : p ≤ q) (hr : Reads P [] r p q) (bound : List Token) :
    Reads P [] (Rule.others r bound) (Many (After (.mark ',') p)) (Many (After (.mark ',') q)) := by
  induction bound with
  | nil => exact .pure .nil
  | cons _ bound ih =>
    refine .branch (Pattern.fit_mark ',') (fun t ht => ?_) (.pure .nil)
    refine .bind hr (fun used hq => (hq.after ht).many_single) fun used v hv => ?_
    refine .bind ih (fun us hq => ?_) fun us vs hvs => .pure (.cons (.after ht hv) hvs)
    exact .many (.after ht (hpq _ _ hv)) hq

lemma reads_commaSeparated (hpq : p ≤ q) (hr : Reads P [] r p q) :
    Reads P [] (Rule.commaSeparated r) (Separated p) (Separated q) := by
  refine .bind hr (fun used hq => ?_) fun used v hv => ?_
  · obtain ⟨more, v, h⟩ := hq
    exact ⟨more, [v], by simpa using Separated.separated h .nil⟩
  · refine fun ts => Reads.bind (reads_others hpq hr ts) (fun us hq => ?_)
      (fun us vs hvs => .pure (.separated hv hvs)) ts
    obtain ⟨more, vs, h⟩ := hq
    exact ⟨more, v :: vs, by simpa using Separated.separated (hpq _ _ hv) h⟩

lemma Opens.separated {ts : List Token} (h : Opens (Separated q) ts) : Opens (Listed q) ts := by
  obtain ⟨more, vs, h⟩ := h
  refine ⟨more ++ [(Terminal.mark ')').token], vs, ?_⟩
  rw [← List.append_assoc]
  exact .items h (Terminal.terminal_token _)

end

lemma reads_parameters : Reads P [] Rule.parameters (Listed Name) (Listed Name) := by
  refine .branch (Pattern.fit_mark ')') (fun t ht => .pure (.empty ht)) ?_
  refine .bind (reads_commaSeparated le_rfl reads_name) (fun used hq => hq.separated)
    fun used names hnames => ?_
  rw [Rule.discard_bind]
  exact .demand (Pattern.fit_mark ')') (Opens.of_self hnames).separated
    fun t ht => .pure (.items hnames ht)

/-! ### Expressions -/

section

variable {constant : Token → Value → Prop} {side : Associativity} {expr expr' : Phrase Expr}
  {inner : Rule Expr}

lemma reads_arguments (hle : expr ≤ expr') (hi : Reads P [] inner expr expr') :
    Reads P [] (Rule.arguments inner) (Listed expr) (Listed expr') := by
  refine .branch (Pattern.fit_mark ')') (fun t ht => .pure (.empty ht)) ?_
  refine .bind (reads_commaSeparated hle hi) (fun used hq => hq.separated)
    fun used values hvalues => ?_
  exact .branch (Pattern.fit_mark ')') (fun t ht => .pure (.items hvalues ht))
    (.refuse (Opens.of_self (Separated.mono hle _ _ hvalues)).separated)

lemma reads_named (hle : expr ≤ expr') (hi : Reads P [] inner expr expr') {t : Token}
    (ht : t.terminal = .name) :
    Reads P [t] (Rule.named inner t.literal) (Primary constant expr)
      (Primary IsConstant expr') := by
  refine .branch (Pattern.fit_mark '(') (fun l hl => ?_) (.pure (.variable ht))
  refine .bind (reads_arguments hle hi) (fun used hq => ?_)
    fun used args hargs => .pure (.call ht hl hargs)
  obtain ⟨more, args, h⟩ := hq
  exact ⟨more, _, .call ht hl h⟩

lemma reads_grouped (hle : expr ≤ expr') (hi : Reads P [] inner expr expr') {l : Token}
    (hl : l.terminal = .mark '(') :
    Reads P [l] (Rule.grouped inner) (Primary constant expr) (Primary IsConstant expr') := by
  refine .bind hi (fun used hq => ?_) fun used e he => ?_
  · obtain ⟨more, e, h⟩ := hq
    refine ⟨more ++ [(Terminal.mark ')').token], .group e, ?_⟩
    simpa using Primary.group hl h (Terminal.terminal_token (.mark ')'))
  · rw [Rule.discard_bind]
    refine .demand (Pattern.fit_mark ')') ?_ fun t ht => .pure ?_
    · refine ⟨[(Terminal.mark ')').token], .group e, ?_⟩
      simpa using Primary.group hl (hle _ _ he) (Terminal.terminal_token (.mark ')'))
    · simpa using Primary.group hl he ht

/-- The constants of a grammar are at least those of a class that can be read, and no other
tokens. -/
structure Constants (P : Token → Prop) (constant : Token → Value → Prop) : Prop where
  of_reading {t : Token} {v : Value} : P t → t.reading? = some (.ok v) → constant t v
  isConstant : constant ≤ IsConstant

lemma reads_primary (hc : Constants P constant) (hle : expr ≤ expr')
    (hi : Reads P [] inner expr expr') :
    Reads P [] (Rule.primary inner) (Primary constant expr) (Primary IsConstant expr') := by
  have hopen : Opens (Primary IsConstant expr') [] :=
    ⟨[Terminal.name.token], _, .variable (Terminal.terminal_token _)⟩
  -- at the end of the tokens a name could still come
  rintro (_ | ⟨t, ts⟩) hts
  · exact ⟨[], rfl, hopen⟩
  obtain ⟨ht, hts⟩ := List.forall_mem_cons.1 hts
  rw [Rule.primary_cons]
  rcases hr : t.reading? with _ | fault | v
  · dsimp only
    by_cases hn : t.terminal = .name
    · rw [if_pos hn]
      exact (reads_named hle hi hn).cons hts
    rw [if_neg hn]
    by_cases hl : t.terminal = .mark '('
    · rw [if_pos hl]
      exact (reads_grouped hle hi hl).cons hts
    · rw [if_neg hl]
      exact ⟨[], rfl, hopen⟩
  · -- a numeral that cannot be read is taken all the same, and stands for some constant
    have ht : t.terminal.isConstant := Token.isSome_reading?.1 (by simp [hr])
    exact ⟨[t], rfl, .of_self (.constant (v := .nil) ht)⟩
  · exact ⟨[t], rfl, .constant (hc.of_reading ht hr)⟩

lemma reads_members (hle : expr ≤ expr') (hc : Constants P constant)
    (hi : Reads P [] inner expr expr') (bound : List Token) {taken : List Token} {e : Expr}
    (he : Secondary constant expr taken e) :
    Reads P taken (Rule.members inner e bound) (Secondary constant expr)
      (Secondary IsConstant expr') := by
  have hmono := Secondary.mono hc.isConstant hle
  -- On the bound, with what has been taken and read so far free: each round adds a member to it.
  induction bound generalizing taken e with
  | nil => exact .pure he
  | cons _ bound ih =>
    refine .branch (Pattern.fit_mark '.') (fun d hd => ?_) (.pure he)
    refine .name ?_ fun n hn => .branch (Pattern.fit_mark '(') (fun l hl => ?_) ?_
    · refine ⟨[Terminal.name.token], .member e Terminal.name.token.literal, ?_⟩
      simpa using Secondary.member (hmono _ _ he) hd (Terminal.terminal_token .name)
    · refine .bind (reads_arguments hle hi) (fun used hq => ?_) fun used args hargs => ih ?_
      · obtain ⟨more, args, h⟩ := hq
        exact ⟨more, _, by simpa using Secondary.invoke (hmono _ _ he) hd hn hl h⟩
      · simpa using Secondary.invoke he hd hn hl hargs
    · exact ih (by simpa using Secondary.member he hd hn)

lemma reads_secondary (hc : Constants P constant) (hle : expr ≤ expr')
    (hi : Reads P [] inner expr expr') :
    Reads P [] (Rule.secondary inner) (Secondary constant expr) (Secondary IsConstant expr') := by
  refine .bind (reads_primary hc hle hi) (fun used hq => ?_) fun used e he ts =>
    reads_members hle hc hi ts (.primary he) ts
  obtain ⟨more, e, h⟩ := hq
  exact ⟨more, e, .primary h⟩

section

variable {level : Level} {p q : Phrase Expr} {operand : Rule Expr}

lemma reads_links (hpq : p ≤ q) (ho : Reads P [] operand p q) (bound : List Token) :
    Reads P [] (Rule.links (level.operators.map .operator) operand bound) (Many (Link level p))
      (Many (Link level q)) := by
  induction bound with
  | nil => exact .pure .nil
  | cons _ bound ih =>
    refine .accept? (Pattern.fit_operators _) (fun t ht => ?_) (.pure .nil)
    refine .bind ho (fun used hq => ?_) fun used e he => ?_
    · obtain ⟨more, e, h⟩ := hq
      exact ⟨more, [_], by simpa using Many.cons (Link.link ht h) .nil⟩
    · refine .bind ih (fun us hq => ?_) fun us links hlinks => .pure (.cons (.link ht he) hlinks)
      exact .many (.link ht (hpq _ _ he)) hq

lemma reads_chain (hpq : p ≤ q) (ho : Reads P [] operand p q) :
    Reads P [] (Rule.level side level operand) (Chain side level p) (Chain side level q) := by
  refine .bind ho (fun used hq => ?_) fun used e he ts => ?_
  · obtain ⟨more, e, h⟩ := hq
    exact ⟨more, e, .operand h⟩
  · refine Reads.bind (reads_links hpq ho ts) (fun us hq => ?_)
      (fun us links hlinks => .pure (Chain.fold he hlinks)) ts
    obtain ⟨more, links, h⟩ := hq
    exact ⟨more, _, by simpa using Chain.fold (hpq _ _ he) h⟩

end

lemma reads_logical (hc : Constants P constant) (hle : expr ≤ expr')
    (hi : Reads P [] inner expr expr') :
    Reads P [] (Rule.logical side inner) (Logical constant side expr)
      (Logical IsConstant side expr') :=
  have h₀ := Secondary.mono hc.isConstant hle
  have h₁ := Chain.mono h₀
  have h₂ := Chain.mono h₁
  have h₃ := Chain.mono h₂
  reads_chain h₃ (reads_chain h₂ (reads_chain h₁ (reads_chain h₀ (reads_secondary hc hle hi))))

lemma expression_of_name {levels : Nat} {t : Token} (ht : t.terminal = .name) :
    Expression constant side (levels + 1) [t] (.variable t.literal) :=
  .operand (.operand (.operand (.operand (.primary (.variable ht)))))

/-- What an expression has taken when it stops can always go on with one level more. -/
lemma reads_expression (hc : Constants P constant) (levels : Nat) :
    Reads P [] (Rule.expression side levels) (Expression constant side levels)
      (Expression IsConstant side (levels + 1)) := by
  induction levels with
  | zero =>
    exact .refuse ⟨[_], _, expression_of_name (Terminal.terminal_token .name)⟩
  | succ levels ih =>
    exact reads_logical hc (Expression.mono hc.isConstant (Nat.le_succ levels)) ih

end

/-! ### Statements -/

section

variable {expr expr' : Phrase Expr} {block block' : Phrase (List Stmt)} {inner : Rule Expr}
  {body : List Pattern → Rule (List Stmt)}

/-- The phrases in which what has been taken goes on: all that has been derived is derived in them,
an expression begins with some name, and a block may be empty. -/
structure Extends (expr expr' : Phrase Expr) (block block' : Phrase (List Stmt)) : Prop where
  expr : expr ≤ expr'
  block : block ≤ block'
  name {t : Token} : t.terminal = .name → expr' [t] (.variable t.literal)
  empty : block' [] []

lemma semicolon_token : (Terminal.mark ';').token.terminal = .mark ';' := Terminal.terminal_token _

lemma word_token (w : Keyword) : (Terminal.word w).token.terminal = .word w :=
  Terminal.terminal_token _

lemma reads_statements {p q : Phrase Stmt} (hpq : p ≤ q) {terminators : List Pattern}
    {statement : Rule Stmt} (hs : Reads P [] statement p q) (bound : List Token) :
    Reads P [] (Rule.statements terminators statement bound) (Many p) (Many q) := by
  -- On the bound; an empty list begins the list of statements wherever the rule stops.
  induction bound with
  | nil => exact .refuse (.of_self .nil)
  | cons _ bound ih =>
    intro ts hts
    rw [Rule.statements_cons]
    by_cases hend : ts.head?.any fun token => terminators.any (·.accepts token)
    · rw [if_pos hend]
      exact ⟨[], rfl, .nil⟩
    rw [if_neg hend]
    by_cases hnil : ts.isEmpty
    · rw [if_pos hnil]
      exact ⟨[], rfl, .of_self .nil⟩
    · rw [if_neg hnil]
      refine Reads.bind hs (fun used hq => hq.many_single) (fun used v hv => ?_) ts hts
      refine .bind ih (fun us hq => ?_) fun us vs hvs => .pure (.cons hv hvs)
      exact .many (hpq _ _ hv) hq

lemma reads_blockOf {p q : Phrase Stmt} (hpq : p ≤ q) {terminators : List Pattern}
    {statement : Rule Stmt} (hs : Reads P [] statement p q) :
    Reads P [] (Rule.blockOf statement terminators) (Many p) (Many q) :=
  fun ts => reads_statements hpq hs ts ts

lemma reads_declaration (hle : expr ≤ expr') (hi : Reads P [] inner expr expr') {t : Token}
    (ht : t.terminal = .word .LET) :
    Reads P [t] (Rule.declaration inner) (Statement expr block) (Statement expr' block') := by
  -- For each place at which the rule may stop, tokens that complete the declaration from there on;
  -- the last goal is the declaration itself.
  refine .name ?_ fun n hn => .bind (reads_after? hi) (fun used hq => ?_) fun used v hv => ?_
  · exact ⟨[Terminal.name.token, (Terminal.mark ';').token], _,
      .declaration ht (Terminal.terminal_token _) .absent semicolon_token⟩
  · obtain ⟨more, v, h⟩ := hq
    refine ⟨more ++ [(Terminal.mark ';').token], .declaration n.literal v, ?_⟩
    simpa using Statement.declaration ht hn h semicolon_token
  · refine .semicolon ⟨[(Terminal.mark ';').token], .declaration n.literal v, ?_⟩
      fun s hs => .pure ?_
    · have hv := Optional.mono (After.mono hle) _ _ hv
      simpa using Statement.declaration ht hn hv semicolon_token
    · simpa using Statement.declaration ht hn hv hs

lemma reads_returning (hle : expr ≤ expr') (hi : Reads P [] inner expr expr') {t : Token}
    (ht : t.terminal = .word .RETURN) :
    Reads P [t] (Rule.returning inner) (Statement expr block) (Statement expr' block') := by
  refine .bind hi (fun used hq => ?_) fun used v hv => .semicolon ?_ fun s hs => .pure ?_
  · obtain ⟨more, v, h⟩ := hq
    refine ⟨more ++ [(Terminal.mark ';').token], .return v, ?_⟩
    simpa using Statement.returning ht h semicolon_token
  · refine ⟨[(Terminal.mark ';').token], .return v, ?_⟩
    simpa using Statement.returning ht (hle _ _ hv) semicolon_token
  · simpa using Statement.returning ht hv hs

lemma reads_assignment (hle : expr ≤ expr') (hi : Reads P [] inner expr expr') :
    Reads P [] (Rule.assignment inner) (Statement expr block) (Statement expr' block') := by
  refine .bind hi (fun used hq => ?_) fun ts e he => ?_
  · -- what begins an expression begins an expression as a statement
    obtain ⟨more, e, h⟩ := hq
    refine ⟨more ++ [(Terminal.mark ';').token], .expression e, ?_⟩
    simpa using Statement.expression h semicolon_token
  have he' := hle _ _ he
  rw [Rule.after?_bind]
  refine .accept? (Pattern.fit_mark '=') (fun t ht => ?_) (.semicolon ?_ fun s hs => .pure ?_)
  · -- an assignment, or the semicolon of an expression as a statement
    replace ht : t.terminal = .mark '=' := by simpa using ht
    refine .bind hi (fun us hq => ?_) fun us v hv => .semicolon ?_ fun s hs => .pure ?_
    · obtain ⟨more, v, h⟩ := hq
      refine ⟨more ++ [(Terminal.mark ';').token], .assignment e v, ?_⟩
      simpa using Statement.assignment he' ht h semicolon_token
    · refine ⟨[(Terminal.mark ';').token], .assignment e v, ?_⟩
      simpa using Statement.assignment he' ht (hle _ _ hv) semicolon_token
    · simpa using Statement.assignment he ht hv hs
  · refine ⟨[(Terminal.mark ';').token], .expression e, ?_⟩
    simpa using Statement.expression he' semicolon_token
  · simpa using Statement.expression he hs

lemma reads_whileDo (hx : Extends expr expr' block block') (hi : Reads P [] inner expr expr')
    (hb : ∀ terminators, Reads P [] (body terminators) block block') {t : Token}
    (ht : t.terminal = .word .WHILE) :
    Reads P [t] (Rule.whileDo inner body) (Statement expr block) (Statement expr' block') := by
  refine .bind hi (fun used hq => ?_) fun ts c hc => .demandWord ?_ fun d hd =>
    .bind (hb _) (fun us hq => ?_) fun us b hbody => .demandWord ?_ fun e he => .pure ?_
  · -- a loop goes on to an empty block, or to the `END` of the block that it has
    obtain ⟨more, c, h⟩ := hq
    refine ⟨more ++ [(Terminal.word .DO).token, (Terminal.word .END).token], .whileDo c [], ?_⟩
    simpa using Statement.whileDo ht h (word_token .DO) hx.empty (word_token .END)
  · refine ⟨[(Terminal.word .DO).token, (Terminal.word .END).token], .whileDo c [], ?_⟩
    simpa using
      Statement.whileDo ht (hx.expr _ _ hc) (word_token .DO) hx.empty (word_token .END)
  · obtain ⟨more, b, h⟩ := hq
    refine ⟨more ++ [(Terminal.word .END).token], .whileDo c b, ?_⟩
    simpa using Statement.whileDo ht (hx.expr _ _ hc) hd h (word_token .END)
  · refine ⟨[(Terminal.word .END).token], .whileDo c b, ?_⟩
    simpa using
      Statement.whileDo ht (hx.expr _ _ hc) hd (hx.block _ _ hbody) (word_token .END)
  · simpa using Statement.whileDo ht hc hd hbody he

lemma reads_forIn (hx : Extends expr expr' block block') (hi : Reads P [] inner expr expr')
    (hb : ∀ terminators, Reads P [] (body terminators) block block') {t : Token}
    (ht : t.terminal = .word .FOR) :
    Reads P [t] (Rule.forIn inner body) (Statement expr block) (Statement expr' block') := by
  have hname := hx.name (Terminal.terminal_token .name)
  refine .name ?_ fun n hn => .demandWord ?_ fun i hin => .bind hi (fun used hq => ?_)
    fun ts v hv => .demandWord ?_ fun d hd => .bind (hb _) (fun us hq => ?_)
    fun us b hbody => .demandWord ?_ fun e he => .pure ?_
  · -- as after `LET` and in a loop under a condition: completed by the least that is missing
    exact ⟨[Terminal.name.token, (Terminal.word .IN).token, Terminal.name.token,
      (Terminal.word .DO).token, (Terminal.word .END).token], _,
      .forIn ht (Terminal.terminal_token .name) (word_token .IN) hname (word_token .DO)
        hx.empty (word_token .END)⟩
  · exact ⟨[(Terminal.word .IN).token, Terminal.name.token, (Terminal.word .DO).token,
      (Terminal.word .END).token], _,
      .forIn ht hn (word_token .IN) hname (word_token .DO) hx.empty (word_token .END)⟩
  · obtain ⟨more, v, h⟩ := hq
    refine ⟨more ++ [(Terminal.word .DO).token, (Terminal.word .END).token],
      .forIn n.literal v [], ?_⟩
    simpa using Statement.forIn ht hn hin h (word_token .DO) hx.empty (word_token .END)
  · refine ⟨[(Terminal.word .DO).token, (Terminal.word .END).token], .forIn n.literal v [], ?_⟩
    simpa using Statement.forIn ht hn hin (hx.expr _ _ hv) (word_token .DO) hx.empty
      (word_token .END)
  · obtain ⟨more, b, h⟩ := hq
    refine ⟨more ++ [(Terminal.word .END).token], .forIn n.literal v b, ?_⟩
    simpa using Statement.forIn ht hn hin (hx.expr _ _ hv) hd h (word_token .END)
  · refine ⟨[(Terminal.word .END).token], .forIn n.literal v b, ?_⟩
    simpa using Statement.forIn ht hn hin (hx.expr _ _ hv) hd (hx.block _ _ hbody)
      (word_token .END)
  · simpa using Statement.forIn ht hn hin hv hd hbody he

lemma reads_ifElse (hx : Extends expr expr' block block') (hi : Reads P [] inner expr expr')
    (hb : ∀ terminators, Reads P [] (body terminators) block block') {t : Token}
    (ht : t.terminal = .word .IF) :
    Reads P [t] (Rule.ifElse inner body) (Statement expr block) (Statement expr' block') := by
  refine .bind hi (fun used hq => ?_) fun ts c hc => .demandWord ?_ fun d hd =>
    .bind (hb _) (fun us hq => ?_) fun us b hbody => ?_
  · obtain ⟨more, c, h⟩ := hq
    refine ⟨more ++ [(Terminal.word .DO).token, (Terminal.word .END).token],
      .ifElse c [] [], ?_⟩
    simpa using Statement.ifElse ht h (word_token .DO) hx.empty .absent (word_token .END)
  · refine ⟨[(Terminal.word .DO).token, (Terminal.word .END).token], .ifElse c [] [], ?_⟩
    simpa using
      Statement.ifElse ht (hx.expr _ _ hc) (word_token .DO) hx.empty .absent (word_token .END)
  · obtain ⟨more, b, h⟩ := hq
    refine ⟨more ++ [(Terminal.word .END).token], .ifElse c b [], ?_⟩
    simpa using Statement.ifElse ht (hx.expr _ _ hc) hd h .absent (word_token .END)
  -- Whatever the else part is, `END` completes the statement.
  have hend : ∀ vs other, Else block' vs other →
      Opens (Statement expr' block') ([] ++ [t] ++ ts ++ [d] ++ us ++ vs) := by
    intro vs other h
    refine ⟨[(Terminal.word .END).token], .ifElse c b other, ?_⟩
    simpa using
      Statement.ifElse ht (hx.expr _ _ hc) hd (hx.block _ _ hbody) h (word_token .END)
  refine .branch (Pattern.fit_keyword .ELSE) (fun s hs => ?_) ?_
  · refine .bind (hb _) (fun vs hq => ?_) fun vs other hother => .demandWord ?_ fun e he =>
      .pure ?_
    · obtain ⟨more, other, h⟩ := hq
      obtain ⟨more', w, h⟩ := hend _ _ (.present hs h)
      exact ⟨more ++ more', w, by simpa using h⟩
    · simpa using hend _ _ (.present hs (hx.block _ _ hother))
    · simpa using Statement.ifElse ht hc hd hbody (.present hs hother) he
  · rw [pure_bind]
    refine .demandWord ?_ fun e he => .pure ?_
    · simpa using hend _ _ .absent
    · simpa using Statement.ifElse ht hc hd hbody .absent he

lemma reads_statementOf (hx : Extends expr expr' block block') (hi : Reads P [] inner expr expr')
    (hb : ∀ terminators, Reads P [] (body terminators) block block') :
    Reads P [] (Rule.statementOf inner body) (Statement expr block)
      (Statement expr' block') := by
  refine .branch (Pattern.fit_keyword .LET) (fun t ht => reads_declaration hx.expr hi ht) ?_
  refine .branch (Pattern.fit_keyword .IF) (fun t ht => reads_ifElse hx hi hb ht) ?_
  refine .branch (Pattern.fit_keyword .FOR) (fun t ht => reads_forIn hx hi hb ht) ?_
  refine .branch (Pattern.fit_keyword .WHILE) (fun t ht => reads_whileDo hx hi hb ht) ?_
  refine .branch (Pattern.fit_keyword .RETURN) (fun t ht => reads_returning hx.expr hi ht) ?_
  exact reads_assignment hx.expr hi

end

section

variable {constant : Token → Value → Prop} {side : Associativity}

lemma extends_succ (hc : Constants P constant) (side : Associativity) (levels : Nat) :
    Extends (Expression constant side levels) (Expression IsConstant side (levels + 1))
      (Block constant side levels) (Block IsConstant side (levels + 1)) where
  expr := Expression.mono hc.isConstant (Nat.le_succ levels)
  block := Block.mono hc.isConstant (Nat.le_succ levels)
  name := expression_of_name
  empty := .nil

lemma reads_block (hc : Constants P constant) (levels : Nat) (terminators : List Pattern) :
    Reads P [] (Rule.block side levels terminators) (Block constant side levels)
      (Block IsConstant side (levels + 1)) := by
  induction levels generalizing terminators with
  | zero => exact .refuse (.of_self .nil)
  | succ levels ih =>
    have hx := extends_succ hc side levels
    refine reads_blockOf (Statement.mono hx.expr hx.block) ?_
    rw [Rule.statement_eq]
    exact reads_statementOf hx (reads_expression hc levels) ih

lemma reads_statement (hc : Constants P constant) (levels : Nat) :
    Reads P [] (Rule.statement side levels)
      (Statement (Expression constant side levels) (Block constant side levels))
      (Statement (Expression IsConstant side (levels + 1))
        (Block IsConstant side (levels + 1))) := by
  rw [Rule.statement_eq]
  exact reads_statementOf (extends_succ hc side levels) (reads_expression hc levels)
    (reads_block hc levels)

end

/-! ### Sources -/

section

variable {expr expr' : Phrase Expr} {block block' : Phrase (List Stmt)} {inner : Rule Expr}
  {body : List Pattern → Rule (List Stmt)}

lemma reads_field (hle : expr ≤ expr') (hi : Reads P [] inner expr expr') {t : Token}
    (ht : t.terminal = .word .LET) :
    Reads P [t] (Rule.field inner) (Field expr) (Field expr') := by
  refine .name ?_ fun n hn => .bind (reads_after? reads_name) (fun used hq => ?_)
    fun ts ty hty => .bind (reads_after? hi) (fun used hq => ?_)
    fun us v hv => .semicolon ?_ fun s hs => .pure ?_
  · exact ⟨[Terminal.name.token, (Terminal.mark ';').token], _,
      .field ht (Terminal.terminal_token .name) .absent .absent semicolon_token⟩
  · obtain ⟨more, ty, h⟩ := hq
    refine ⟨more ++ [(Terminal.mark ';').token], ⟨n.literal, ty, none⟩, ?_⟩
    simpa using (Field.field ht hn h .absent semicolon_token : Field expr' _ _)
  · obtain ⟨more, v, h⟩ := hq
    refine ⟨more ++ [(Terminal.mark ';').token], ⟨n.literal, ty, v⟩, ?_⟩
    simpa using Field.field ht hn hty h semicolon_token
  · refine ⟨[(Terminal.mark ';').token], ⟨n.literal, ty, v⟩, ?_⟩
    have hv := Optional.mono (After.mono hle) _ _ hv
    simpa using Field.field ht hn hty hv semicolon_token
  · simpa using Field.field ht hn hty hv hs

lemma reads_method (hle : block ≤ block') (hempty : block' [] [])
    (hb : ∀ terminators, Reads P [] (body terminators) block block') {t : Token}
    (ht : t.terminal = .word .DEF) :
    Reads P [t] (Rule.method body) (Method block) (Method block') := by
  refine .name ?_ fun n hn => ?_
  · exact ⟨[Terminal.name.token, (Terminal.mark '(').token, (Terminal.mark ')').token,
      (Terminal.word .DO).token, (Terminal.word .END).token], _,
      .method ht (Terminal.terminal_token .name) (Terminal.terminal_token (.mark '('))
        (.empty (Terminal.terminal_token (.mark ')'))) (word_token .DO) hempty (word_token .END)⟩
  rw [Rule.discard_bind]
  refine .demand (Pattern.fit_mark '(') ?_ fun l hl => .bind reads_parameters
    (fun used hq => ?_) fun ts names hnames => .demandWord ?_ fun d hd =>
    .bind (hb _) (fun us hq => ?_) fun us b hbody => .demandWord ?_ fun e he => .pure ?_
  · -- no parameters, if they have not begun, and an empty block
    exact ⟨[(Terminal.mark '(').token, (Terminal.mark ')').token,
      (Terminal.word .DO).token, (Terminal.word .END).token], _,
      .method ht hn (Terminal.terminal_token (.mark '('))
        (.empty (Terminal.terminal_token (.mark ')'))) (word_token .DO) hempty (word_token .END)⟩
  · obtain ⟨more, names, h⟩ := hq
    refine ⟨more ++ [(Terminal.word .DO).token, (Terminal.word .END).token],
      ⟨n.literal, names, []⟩, ?_⟩
    simpa using Method.method ht hn hl h (word_token .DO) hempty (word_token .END)
  · refine ⟨[(Terminal.word .DO).token, (Terminal.word .END).token], ⟨n.literal, names, []⟩, ?_⟩
    simpa using Method.method ht hn hl hnames (word_token .DO) hempty (word_token .END)
  · obtain ⟨more, b, h⟩ := hq
    refine ⟨more ++ [(Terminal.word .END).token], ⟨n.literal, names, b⟩, ?_⟩
    simpa using Method.method ht hn hl hnames hd h (word_token .END)
  · refine ⟨[(Terminal.word .END).token], ⟨n.literal, names, b⟩, ?_⟩
    simpa using Method.method ht hn hl hnames hd (hle _ _ hbody) (word_token .END)
  · simpa using Method.method ht hn hl hnames hd hbody he

/-- What an item has taken when it stops can go on to a list of items, which may be empty. -/
lemma reads_item (hx : Extends expr expr' block block') (hi : Reads P [] inner expr expr')
    (hb : ∀ terminators, Reads P [] (body terminators) block block') :
    Reads P [] (Rule.item inner body) (Item expr block) (Many (Item expr' block')) := by
  refine .branch (Pattern.fit_keyword .LET) (fun t ht => ?_)
    (.branch (Pattern.fit_keyword .DEF) (fun t ht => ?_) fun ts _ => ?_)
  · refine .map (reads_field hx.expr hi ht) (fun _ _ => .field) fun ts h => .many_single ?_
    obtain ⟨more, f, h⟩ := h
    exact ⟨more, _, .field h⟩
  · refine .map (reads_method hx.block hx.empty hb ht) (fun _ _ => .method)
      fun ts h => .many_single ?_
    obtain ⟨more, m, h⟩ := h
    exact ⟨more, _, .method h⟩
  · cases ts <;> exact ⟨[], rfl, .of_self .nil⟩

lemma Item.mono (hi : expr ≤ expr') (hb : block ≤ block') :
    Item expr block ≤ Item expr' block' := by
  rintro _ _ (hf | hm)
  · exact .field (Field.mono hi _ _ hf)
  · exact .method (Method.mono hb _ _ hm)

lemma reads_items {p q : Phrase Pebble.Item} (hpq : p ≤ q) {item : Rule Pebble.Item}
    (hi : Reads P [] item p (Many q)) (bound : List Token) :
    Reads P [] (Rule.items item bound) (Many p) (Many q) := by
  -- On the bound; items may stop anywhere, since a source may be empty.
  induction bound with
  | nil => exact .pure .nil
  | cons _ bound ih =>
    intro ts hts
    rw [Rule.items_cons]
    by_cases hnil : ts.isEmpty
    · rw [if_pos hnil]
      exact ⟨[], rfl, .nil⟩
    · rw [if_neg hnil]
      refine Reads.bind hi (fun used hq => hq) (fun used v hv => ?_) ts hts
      exact .bind ih (fun us hq => .many (hpq _ _ hv) hq) fun us vs hvs => .pure (.cons hv hvs)

end

/-- What a source has taken when it stops can always go on with one level more. -/
lemma reads_source {constant : Token → Value → Prop} (hc : Constants P constant)
    (side : Associativity) (levels : Nat) :
    Reads P [] (Rule.source side levels) (Program constant side levels)
      (Program IsConstant side (levels + 1)) := by
  have hx := extends_succ hc side levels
  have hitem := reads_item hx (reads_expression hc levels) (reads_block hc levels)
  intro ts
  refine Reads.map (reads_items (Item.mono hx.expr hx.block) hitem ts)
    (fun _ _ => Source.ofItems) (fun us h => ?_) ts
  obtain ⟨more, items, h⟩ := h
  exact ⟨more, _, Source.ofItems h⟩

end Pebble.Grammar

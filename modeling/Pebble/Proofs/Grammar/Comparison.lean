import Mathlib.Data.List.Forall2
import Pebble.Proofs.Grammar.Constant
import Pebble.Proofs.Grammar.Derivation
import Pebble.Proofs.Tree.Proper

/-!
Comparison of two runs of the rules, on tokens that are alike one by one: they come equally far, and
give values or complaints that are alike. What is alike is a parameter, with the laws that the
rules need of it.
-/

namespace Pebble

/-! ### What is alike -/

/-- Two readings of tokens are alike if neither token is a constant, if both cannot be read for the
same fault, or if they are read as values in a relation. -/
inductive ReadingsAlike (value : Value → Value → Prop) :
    Option (Except Numeral.Fault Value) → Option (Except Numeral.Fault Value) → Prop
  | none : ReadingsAlike value none none
  | fault (fault : Numeral.Fault) : ReadingsAlike value (some (.error fault)) (some (.error fault))
  | value {v v' : Value} : value v v' → ReadingsAlike value (some (.ok v)) (some (.ok v'))

/-- Which tokens, complaints, names and values are alike. Alike tokens have the same terminal,
unless both are constants. -/
structure TokenComparison where
  token : Token → Token → Prop
  complaint : Complaint → Complaint → Prop
  name : Text → Text → Prop
  value : Value → Value → Prop
  terminal {t t' : Token} : token t t' →
    t.terminal = t'.terminal ∨ (t.terminal.isConstant ∧ t'.terminal.isConstant)
  named {t t' : Token} : token t t' → t.terminal = .name → name t.literal t'.literal
  reading {t t' : Token} : token t t' → ReadingsAlike value t.reading? t'.reading?
  same (cause : Complaint) : complaint cause cause
  unexpected {t t' : Token} : token t t' →
    complaint (.unexpectedToken t.literal) (.unexpectedToken t'.literal)

/-- Two links of chains of a level, with the same operator and with operands in a relation. -/
structure LinksAlike (level : Level) (expr : Expr → Expr → Prop) (link link' : Text × Expr) :
    Prop where
  operator : link.1 = link'.1
  mem : link.1 ∈ level.operators
  operand : expr link.2 link'.2

/-- Which trees are alike besides, when the first run folds chains to `side` and the second one to
`side'`. Trees made of alike parts are alike; expressions are alike at a rank that both have at
least, so that the operands of a chain can be told from the chain. -/
structure Comparison extends TokenComparison where
  side : Associativity
  side' : Associativity
  expr : Nat → Expr → Expr → Prop
  stmt : Stmt → Stmt → Prop
  field : Field → Field → Prop
  method : Method → Method → Prop
  source : Source → Source → Prop
  literal {v v' : Value} : value v v' → expr 4 (.literal v) (.literal v')
  group {e e' : Expr} : expr 0 e e' → expr 4 (.group e) (.group e')
  «variable» {n n' : Text} : name n n' → expr 4 (.variable n) (.variable n')
  member {e e' : Expr} {n n' : Text} : expr 4 e e' → name n n' →
    expr 4 (.member e n) (.member e' n')
  call {n n' : Text} {es es' : List Expr} : name n n' → List.Forall₂ (expr 0) es es' →
    expr 4 (.call n es) (.call n' es')
  invoke {e e' : Expr} {n n' : Text} {es es' : List Expr} : expr 4 e e' → name n n' →
    List.Forall₂ (expr 0) es es' → expr 4 (.invoke e n es) (.invoke e' n' es')
  fold {level : Level} {e e' : Expr} {links links' : List (Text × Expr)} :
    expr (level.rank + 1) e e' →
    List.Forall₂ (LinksAlike level (expr (level.rank + 1))) links links' →
    expr level.rank (side.fold .binary e links) (side'.fold .binary e' links')
  expression {e e' : Expr} : expr 0 e e' → stmt (.expression e) (.expression e')
  assignment {e e' f f' : Expr} : expr 0 e e' → expr 0 f f' →
    stmt (.assignment e f) (.assignment e' f')
  declaration {n n' : Text} {x x' : Option Expr} : name n n' → Option.Rel (expr 0) x x' →
    stmt (.declaration n x) (.declaration n' x')
  ifElse {e e' : Expr} {body body' other other' : List Stmt} : expr 0 e e' →
    List.Forall₂ stmt body body' → List.Forall₂ stmt other other' →
    stmt (.ifElse e body other) (.ifElse e' body' other')
  forIn {n n' : Text} {e e' : Expr} {body body' : List Stmt} : name n n' → expr 0 e e' →
    List.Forall₂ stmt body body' → stmt (.forIn n e body) (.forIn n' e' body')
  whileDo {e e' : Expr} {body body' : List Stmt} : expr 0 e e' →
    List.Forall₂ stmt body body' → stmt (.whileDo e body) (.whileDo e' body')
  returning {e e' : Expr} : expr 0 e e' → stmt (.return e) (.return e')
  ofField {n n' : Text} {ty ty' : Option Text} {x x' : Option Expr} : name n n' →
    Option.Rel name ty ty' → Option.Rel (expr 0) x x' → field ⟨n, ty, x⟩ ⟨n', ty', x'⟩
  ofMethod {n n' : Text} {ps ps' : List Text} {body body' : List Stmt} : name n n' →
    List.Forall₂ name ps ps' → List.Forall₂ stmt body body' →
    method ⟨n, ps, body⟩ ⟨n', ps', body'⟩
  empty : source {} {}
  addField {f f' : Field} {s s' : Source} : field f f' → source s s' →
    source { s with fields := f :: s.fields } { s' with fields := f' :: s'.fields }
  addMethod {m m' : Method} {s s' : Source} : method m m' → source s s' →
    source { s with methods := m :: s.methods } { s' with methods := m' :: s'.methods }

section

variable {α α' β : Type} {f : α → β} {f' : α' → β}

lemma map_eq_map_of_forall₂ {l : List α} {l' : List α'}
    (h : List.Forall₂ (fun a a' => f a = f' a') l l') : l.map f = l'.map f' := by
  rwa [← List.forall₂_eq_eq_eq, List.forall₂_map_left_iff, List.forall₂_map_right_iff]

lemma eq_of_rel {x x' : Option α} (h : Option.Rel Eq x x') : x = x' := by
  cases h with
  | some h => exact congrArg some h
  | none => rfl

lemma map_eq_map_of_rel {x : Option α} {x' : Option α'}
    (h : Option.Rel (fun a a' => f a = f' a') x x') : x.map f = x'.map f' := by
  cases h with
  | some h => exact congrArg some h
  | none => rfl

end

namespace TokenComparison

abbrev Tokens (C : TokenComparison) : List Token → List Token → Prop := List.Forall₂ C.token

variable {C : TokenComparison} {t t' : Token} {cs : List Terminal}

lemma terminal_iff (h : C.token t t') {c : Terminal} (hc : c.isConstant = false) :
    t.terminal = c ↔ t'.terminal = c := by
  rcases C.terminal h with heq | ⟨ht, ht'⟩
  · rw [heq]
  · refine iff_of_false ?_ ?_ <;> rintro rfl
    · exact absurd (hc.symm.trans ht) nofun
    · exact absurd (hc.symm.trans ht') nofun

lemma mem_iff (h : C.token t t') (hcs : ∀ c ∈ cs, c.isConstant = false) :
    t.terminal ∈ cs ↔ t'.terminal ∈ cs := by
  constructor
  · intro ht
    rwa [(terminal_iff h (hcs _ ht)).mp rfl]
  · intro ht
    rwa [(terminal_iff h (hcs _ ht)).mpr rfl]

lemma clear_iff {ts ts' : List Token} (h : C.Tokens ts ts')
    (hcs : ∀ c ∈ cs, c.isConstant = false) : Clear cs ts ↔ Clear cs ts' := by
  cases h with
  | nil => rfl
  | cons ht _ => rw [clear_cons, clear_cons, mem_iff ht hcs]

end TokenComparison

namespace Rule

variable {α α' β β' : Type}

/-! ### Outcomes and rules that agree -/

/-- Two outcomes are alike if they leave alike tokens, with values in a relation, with alike
complaints or with the same fault of a numeral. -/
inductive Alike (C : TokenComparison) (R : α → α' → Prop) :
    EStateM.Result Stop (List Token) α → EStateM.Result Stop (List Token) α' → Prop
  | ok {v : α} {v' : α'} {rest rest' : List Token} : R v v' → C.Tokens rest rest' →
    Alike C R (.ok v rest) (.ok v' rest')
  | complaint {cause cause' : Complaint} {rest rest' : List Token} : C.complaint cause cause' →
    C.Tokens rest rest' →
    Alike C R (.error (.complaint cause) rest) (.error (.complaint cause') rest')
  | numeral {fault : Numeral.Fault} {rest rest' : List Token} : C.Tokens rest rest' →
    Alike C R (.error (.numeral fault) rest) (.error (.numeral fault) rest')

/-- Two rules agree if their outcomes on alike tokens are alike. -/
def Agree (C : TokenComparison) (R : α → α' → Prop) (r : Rule α) (r' : Rule α') : Prop :=
  ∀ ts ts', C.Tokens ts ts' → Alike C R (r ts) (r' ts')

namespace Agree

variable {C : TokenComparison} {R : α → α' → Prop} {S : β → β' → Prop} {r : Rule α} {r' : Rule α'}

lemma pure {v : α} {v' : α'} (h : R v v') : Agree C R (Pure.pure v) (Pure.pure v') :=
  fun _ _ hts => .ok h hts

lemma refuse (cause : Complaint) : Agree C R (Rule.refuse cause) (Rule.refuse cause) :=
  fun _ _ hts => .complaint (C.same cause) hts

/-- What goes on in alike ways after alike values. -/
lemma bind {k : α → Rule β} {k' : α' → Rule β'} (h : Agree C R r r')
    (hk : ∀ v v', R v v' → Agree C S (k v) (k' v')) : Agree C S (r >>= k) (r' >>= k') := by
  intro ts ts' hts
  have hr := h ts ts' hts
  rw [bind_apply, bind_apply]
  generalize r ts = out at hr ⊢
  generalize r' ts' = out' at hr ⊢
  cases hr with
  | ok hv hrest => exact hk _ _ hv _ _ hrest
  | complaint hcause hrest => exact .complaint hcause hrest
  | numeral hrest => exact .numeral hrest

/-- What goes on in alike ways with the tokens that are left as the bound of a loop. -/
lemma get {k : List Token → Rule β} {k' : List Token → Rule β'}
    (h : ∀ ts ts', C.Tokens ts ts' → Agree C S (k ts) (k' ts')) :
    Agree C S (MonadState.get >>= k) (MonadState.get >>= k') :=
  fun ts ts' hts => h ts ts' hts ts ts' hts

lemma accept? {patterns : List Pattern} {cs : List Terminal} (fit : Pattern.Fit patterns cs)
    (hcs : ∀ c ∈ cs, c.isConstant = false) {k : Option Token → Rule β}
    {k' : Option Token → Rule β'}
    (yes : ∀ t t', t.terminal ∈ cs → t'.terminal = t.terminal →
      Agree C S (k (some t)) (k' (some t')))
    (no : Agree C S (k none) (k' none)) :
    Agree C S (Rule.accept? patterns >>= k) (Rule.accept? patterns >>= k') := by
  intro ts ts' hts
  by_cases hclear : Clear cs ts
  · have hclear' := (TokenComparison.clear_iff hts hcs).mp hclear
    rw [bind_ok (accept?_of_clear fit hclear), bind_ok (accept?_of_clear fit hclear')]
    exact no ts ts' hts
  · cases hts with
    | nil => exact absurd (clear_nil cs) hclear
    | @cons t t' ts ts' ht hts =>
      have hmem : t.terminal ∈ cs := by simpa using hclear
      have hmem' := (TokenComparison.mem_iff ht hcs).mp hmem
      have hsame := (TokenComparison.terminal_iff ht (hcs _ hmem)).mp rfl
      rw [bind_ok (accept?_of_mem fit hmem), bind_ok (accept?_of_mem fit hmem')]
      exact yes t t' hmem hsame ts ts' hts

section

variable {pattern : Pattern} {c : Terminal}

lemma branch (fit : Pattern.Fit [pattern] [c]) (hc : c.isConstant = false) {x y : Rule β}
    {x' y' : Rule β'} (yes : Agree C S x x') (no : Agree C S y y') :
    Agree C S (accepts pattern >>= fun found => if found = true then x else y)
      (accepts pattern >>= fun found => if found = true then x' else y') := by
  rw [accepts_bind, accepts_bind]
  exact accept? fit (List.forall_mem_singleton.mpr hc) (fun _ _ _ _ => yes) no

lemma demand {kind : ComplaintKind} (fit : Pattern.Fit [pattern] [c]) (hc : c.isConstant = false)
    {x : Rule β} {x' : Rule β'} (yes : Agree C S x x') :
    Agree C S (discard (Rule.demand pattern kind) >>= fun _ => x)
      (discard (Rule.demand pattern kind) >>= fun _ => x') := by
  rw [discard_bind, discard_bind, demand_bind, demand_bind]
  exact accept? fit (List.forall_mem_singleton.mpr hc) (fun _ _ _ _ => yes) (.refuse _)

end

/-- A keyword that is no constant must stand here. -/
lemma demandWord {word : Keyword} (hword : (Terminal.word word).isConstant = false) {x : Rule β}
    {x' : Rule β'} (yes : Agree C S x x') :
    Agree C S (Rule.demandWord word >>= fun _ => x) (Rule.demandWord word >>= fun _ => x') :=
  demand (Pattern.fit_keyword word) hword yes

lemma closing {v : β} {v' : β'} (h : S v v') :
    Agree C S (Rule.closing >>= fun _ => Pure.pure v) (Rule.closing >>= fun _ => Pure.pure v') :=
  demandWord rfl (.pure h)

lemma semicolon {v : β} {v' : β'} (h : S v v') :
    Agree C S (Rule.semicolon >>= fun _ => Pure.pure v)
      (Rule.semicolon >>= fun _ => Pure.pure v') := by
  rw [semicolon_bind, semicolon_bind]
  exact accept? (Pattern.fit_mark ';') (List.forall_mem_singleton.mpr rfl)
    (fun _ _ _ _ => .pure h) (.refuse _)

lemma name : Agree C C.name Rule.name Rule.name := by
  intro ts ts' hts
  have hcs : ∀ c ∈ [Terminal.name], c.isConstant = false := List.forall_mem_singleton.mpr rfl
  by_cases hclear : Clear [.name] ts
  · rw [name_of_clear hclear, name_of_clear ((TokenComparison.clear_iff hts hcs).mp hclear)]
    exact .complaint (C.same _) hts
  · cases hts with
    | nil => exact absurd (clear_nil _) hclear
    | @cons t t' ts ts' ht hts =>
      have hname : t.terminal = .name := by simpa using hclear
      rw [name_of_eq hname, name_of_eq ((TokenComparison.terminal_iff ht rfl).mp hname)]
      exact .ok (C.named ht hname) hts

lemma after? (a : Char) (h : Agree C R r r') :
    Agree C (Option.Rel R) (Rule.after? a r) (Rule.after? a r') := by
  refine branch (Pattern.fit_mark a) rfl ?_ (.pure .none)
  exact .bind h fun v v' hv => .pure (.some hv)

end Agree

/-! ### Expressions -/

section

variable {C : TokenComparison} {R : α → α' → Prop} {r : Rule α} {r' : Rule α'}

lemma agree_others (h : Agree C R r r') {bound bound' : List Token} (hb : C.Tokens bound bound') :
    Agree C (List.Forall₂ R) (others r bound) (others r' bound') := by
  -- The bounds are alike as well, so that neither loop is cut short before the other one.
  induction hb with
  | nil => exact .pure .nil
  | cons _ _ ih =>
    refine .branch (Pattern.fit_mark ',') rfl ?_ (.pure .nil)
    exact .bind h fun v v' hv => .bind ih fun vs vs' hvs => .pure (.cons hv hvs)

lemma agree_commaSeparated (h : Agree C R r r') :
    Agree C (List.Forall₂ R) (commaSeparated r) (commaSeparated r') :=
  .bind h fun _ _ hv => .get fun _ _ hts => .bind (agree_others h hts) fun _ _ hvs =>
    .pure (.cons hv hvs)

lemma agree_parameters : Agree C (List.Forall₂ C.name) parameters parameters := by
  refine .branch (Pattern.fit_mark ')') rfl (.pure .nil) (.bind (agree_commaSeparated .name) ?_)
  exact fun _ _ hns => .demand (Pattern.fit_mark ')') rfl (.pure hns)

end

section

variable {C : Comparison} {inner inner' : Rule Expr}

/-- Two rules for expressions agree, and what they read binds at least so tightly. -/
abbrev ExprsAgree (C : Comparison) (rank : Nat) (r r' : Rule Expr) : Prop :=
  Agree C.toTokenComparison (C.expr rank) r r'

lemma agree_arguments (h : ExprsAgree C 0 inner inner') :
    Agree C.toTokenComparison (List.Forall₂ (C.expr 0)) (arguments inner) (arguments inner') := by
  refine .branch (Pattern.fit_mark ')') rfl (.pure .nil) (.bind (agree_commaSeparated h) ?_)
  exact fun _ _ hvs => .branch (Pattern.fit_mark ')') rfl (.pure hvs) (.refuse _)

lemma agree_named (h : ExprsAgree C 0 inner inner') {name name' : Text}
    (hname : C.name name name') : ExprsAgree C 4 (named inner name) (named inner' name') := by
  refine .branch (Pattern.fit_mark '(') rfl ?_ (.pure (C.variable hname))
  exact .bind (agree_arguments h) fun _ _ hes => .pure (C.call hname hes)

lemma agree_grouped (h : ExprsAgree C 0 inner inner') :
    ExprsAgree C 4 (grouped inner) (grouped inner') :=
  .bind h fun _ _ he => .demand (Pattern.fit_mark ')') rfl (.pure (C.group he))

lemma agree_primary (h : ExprsAgree C 0 inner inner') :
    ExprsAgree C 4 (primary inner) (primary inner') := by
  intro ts ts' hts
  cases hts with
  | nil => exact .complaint (C.same _) .nil
  | @cons t t' ts ts' ht hts =>
    rw [primary_cons, primary_cons]
    have hread := C.reading ht
    have hname := TokenComparison.terminal_iff ht (c := .name) rfl
    have hgroup := TokenComparison.terminal_iff ht (c := .mark '(') rfl
    generalize t.reading? = reading at hread ⊢
    generalize t'.reading? = reading' at hread ⊢
    cases hread with
    | none =>
      by_cases hn : t.terminal = .name
      · simp only [if_pos hn, if_pos (hname.mp hn)]
        exact agree_named h (C.named ht hn) ts ts' hts
      simp only [if_neg hn, if_neg fun hn' => hn (hname.mpr hn')]
      by_cases hg : t.terminal = .mark '('
      · simp only [if_pos hg, if_pos (hgroup.mp hg)]
        exact agree_grouped h ts ts' hts
      · simp only [if_neg hg, if_neg fun hg' => hg (hgroup.mpr hg')]
        exact .complaint (C.same _) (.cons ht hts)
    | fault fault => exact .numeral hts
    | value hv => exact .ok (C.literal hv) hts

lemma agree_members (h : ExprsAgree C 0 inner inner') {bound bound' : List Token}
    (hb : C.Tokens bound bound') {e e' : Expr} (he : C.expr 4 e e') :
    ExprsAgree C 4 (members inner e bound) (members inner' e' bound') := by
  -- What has been read so far is an argument of the loop, so it varies in the induction.
  induction hb generalizing e e' with
  | nil => exact .pure he
  | cons _ _ ih =>
    refine .branch (Pattern.fit_mark '.') rfl (.bind .name fun n n' hn => ?_) (.pure he)
    refine .branch (Pattern.fit_mark '(') rfl (.bind (agree_arguments h) ?_) (ih (C.member he hn))
    exact fun _ _ hes => ih (C.invoke he hn hes)

lemma agree_secondary (h : ExprsAgree C 0 inner inner') :
    ExprsAgree C 4 (secondary inner) (secondary inner') :=
  .bind (agree_primary h) fun _ _ he => .get fun _ _ hts => agree_members h hts he

section

variable {level : Level} {operand operand' : Rule Expr}

lemma agree_links (h : ExprsAgree C (level.rank + 1) operand operand') {bound bound' : List Token}
    (hb : C.Tokens bound bound') :
    Agree C.toTokenComparison
      (List.Forall₂ (LinksAlike level (C.expr (level.rank + 1))))
      (links (level.operators.map .operator) operand bound)
      (links (level.operators.map .operator) operand' bound') := by
  have hcs : ∀ c ∈ level.operators.map Terminal.operator, c.isConstant = false := by
    cases level <;> decide
  induction hb with
  | nil => exact .pure .nil
  | cons _ _ ih =>
    refine .accept? (Pattern.fit_operators _) hcs (fun t t' ht heq => ?_) (.pure .nil)
    obtain ⟨hop, hmem⟩ := Grammar.operator_of_mem_terminals ht
    obtain ⟨hop', -⟩ := Grammar.operator_of_mem_terminals (heq ▸ ht)
    have hliteral : t.literal = t'.literal := by
      rw [hop, hop'] at heq
      exact (Terminal.operator.inj heq).symm
    exact .bind h fun _ _ he => .bind ih fun _ _ hls => .pure (.cons ⟨hliteral, hmem, he⟩ hls)

/-- The operands of a level bind tighter than its chains. -/
lemma agree_level (h : ExprsAgree C (level.rank + 1) operand operand') :
    ExprsAgree C level.rank (Rule.level C.side level operand)
      (Rule.level C.side' level operand') :=
  .bind h fun _ _ he => .get fun _ _ hts => .bind (agree_links h hts) fun _ _ hls =>
    .pure (C.fold he hls)

end

end

lemma agree_expression (C : Comparison) (levels : Nat) :
    ExprsAgree C 0 (expression C.side levels) (expression C.side' levels) := by
  induction levels with
  | zero => exact .refuse _
  | succ levels ih =>
    have hsecondary : ExprsAgree C (Level.multiplicative.rank + 1) _ _ := agree_secondary ih
    have hmultiplicative : ExprsAgree C (Level.additive.rank + 1) _ _ := agree_level hsecondary
    have hadditive : ExprsAgree C (Level.equality.rank + 1) _ _ := agree_level hmultiplicative
    have hequality : ExprsAgree C (Level.logical.rank + 1) _ _ := agree_level hadditive
    exact agree_level hequality

/-! ### Statements -/

abbrev StmtsAgree (C : Comparison) (r r' : Rule Stmt) : Prop :=
  Agree C.toTokenComparison C.stmt r r'

/-- Blocks up to terminators that are no constants agree. -/
def BlocksAgree (C : Comparison) (body body' : List Pattern → Rule (List Stmt)) : Prop :=
  ∀ terminators cs, Pattern.Fit terminators cs → (∀ c ∈ cs, c.isConstant = false) →
    Agree C.toTokenComparison (List.Forall₂ C.stmt) (body terminators) (body' terminators)

section

variable {C : Comparison} {inner inner' : Rule Expr} {body body' : List Pattern → Rule (List Stmt)}

lemma BlocksAgree.upToEnd (h : BlocksAgree C body body') :
    Agree C.toTokenComparison (List.Forall₂ C.stmt) (body [.keyword .END])
      (body' [.keyword .END]) :=
  h _ _ (Pattern.fit_keyword .END) (List.forall_mem_singleton.mpr rfl)

lemma agree_declaration (h : ExprsAgree C 0 inner inner') :
    StmtsAgree C (declaration inner) (declaration inner') :=
  .bind .name fun _ _ hn => .bind (.after? '=' h) fun _ _ hx => .semicolon (C.declaration hn hx)

lemma agree_returning (h : ExprsAgree C 0 inner inner') :
    StmtsAgree C (returning inner) (returning inner') :=
  .bind h fun _ _ he => .semicolon (C.returning he)

lemma agree_assignment (h : ExprsAgree C 0 inner inner') :
    StmtsAgree C (assignment inner) (assignment inner') := by
  refine .bind h fun e e' he => ?_
  rw [after?_bind, after?_bind]
  refine .accept? (Pattern.fit_mark '=') (List.forall_mem_singleton.mpr rfl) (fun _ _ _ _ => ?_)
    (.semicolon (C.expression he))
  exact .bind h fun f f' hf => .semicolon (C.assignment he hf)

variable (hb : BlocksAgree C body body')

include hb

lemma agree_whileDo (h : ExprsAgree C 0 inner inner') :
    StmtsAgree C (whileDo inner body) (whileDo inner' body') :=
  .bind h fun _ _ he => .demandWord rfl <| .bind hb.upToEnd fun _ _ hvs =>
    .closing (C.whileDo he hvs)

lemma agree_forIn (h : ExprsAgree C 0 inner inner') :
    StmtsAgree C (forIn inner body) (forIn inner' body') :=
  .bind .name fun _ _ hn => .demandWord rfl <| .bind h fun _ _ he => .demandWord rfl <|
    .bind hb.upToEnd fun _ _ hvs => .closing (C.forIn hn he hvs)

lemma agree_ifElse (h : ExprsAgree C 0 inner inner') :
    StmtsAgree C (ifElse inner body) (ifElse inner' body') := by
  have hwords : ∀ c ∈ [Terminal.word .ELSE, .word .END], c.isConstant = false := by decide
  have hthen := hb _ _ (Pattern.fit_keywords .ELSE .END) hwords
  rw [ifElse_eq, ifElse_eq]
  refine .bind h fun _ _ he => .demandWord rfl <| .bind hthen fun _ _ hvs =>
    .branch (Pattern.fit_keyword .ELSE) rfl ?_ (.closing (C.ifElse he hvs .nil))
  exact .bind hb.upToEnd fun _ _ hws => .closing (C.ifElse he hvs hws)

lemma agree_statementOf (h : ExprsAgree C 0 inner inner') :
    StmtsAgree C (statementOf inner body) (statementOf inner' body') :=
  .branch (Pattern.fit_keyword .LET) rfl (agree_declaration h) <|
    .branch (Pattern.fit_keyword .IF) rfl (agree_ifElse hb h) <|
      .branch (Pattern.fit_keyword .FOR) rfl (agree_forIn hb h) <|
        .branch (Pattern.fit_keyword .WHILE) rfl (agree_whileDo hb h) <|
          .branch (Pattern.fit_keyword .RETURN) rfl (agree_returning h) (agree_assignment h)

end

lemma agree_statements {C : Comparison} {statement statement' : Rule Stmt}
    (h : StmtsAgree C statement statement') {terminators : List Pattern} {cs : List Terminal}
    (fit : Pattern.Fit terminators cs) (hcs : ∀ c ∈ cs, c.isConstant = false)
    {bound bound' : List Token} (hb : C.Tokens bound bound') :
    Agree C.toTokenComparison (List.Forall₂ C.stmt) (statements terminators statement bound)
      (statements terminators statement' bound') := by
  induction hb with
  | nil => exact .refuse _
  | cons _ _ ih =>
    intro ts ts' hts
    rw [statements_cons, statements_cons]
    cases hts with
    | nil => exact .complaint (C.same _) .nil
    | @cons t t' ts ts' ht hts =>
      have hend : terminators.any (·.accepts t) = terminators.any (·.accepts t') := by
        rw [Bool.eq_iff_iff, fit t, fit t', TokenComparison.mem_iff ht hcs]
      simp only [List.head?_cons, Option.any_some, List.isEmpty_cons, hend, Bool.false_eq_true,
        if_false]
      split
      · exact .ok .nil (.cons ht hts)
      · exact Agree.bind h (fun v v' hv => .bind ih fun vs vs' hvs => .pure (.cons hv hvs)) _ _
          (.cons ht hts)

lemma agree_block (C : Comparison) (levels : Nat) :
    BlocksAgree C (block C.side levels) (block C.side' levels) := by
  induction levels with
  | zero => exact fun _ _ _ _ => .refuse _
  | succ levels ih =>
    intro terminators cs fit hcs
    have hstatement := agree_statementOf ih (agree_expression C levels)
    rw [← statement_eq, ← statement_eq] at hstatement
    exact .get fun _ _ hts => agree_statements hstatement fit hcs hts

lemma agree_statement (C : Comparison) (levels : Nat) :
    StmtsAgree C (statement C.side levels) (statement C.side' levels) := by
  rw [statement_eq, statement_eq]
  exact agree_statementOf (agree_block C levels) (agree_expression C levels)

/-! ### Sources -/

inductive ItemsAlike (C : Comparison) : Item → Item → Prop
  | field {f f' : Field} : C.field f f' → ItemsAlike C (.field f) (.field f')
  | method {m m' : Method} : C.method m m' → ItemsAlike C (.method m) (.method m')

section

variable {C : Comparison} {inner inner' : Rule Expr} {body body' : List Pattern → Rule (List Stmt)}

lemma agree_field (h : ExprsAgree C 0 inner inner') :
    Agree C.toTokenComparison C.field (field inner) (field inner') :=
  .bind .name fun _ _ hn => .bind (.after? ':' .name) fun _ _ hty =>
    .bind (.after? '=' h) fun _ _ hx => .semicolon (C.ofField hn hty hx)

lemma agree_method (hb : BlocksAgree C body body') :
    Agree C.toTokenComparison C.method (method body) (method body') :=
  .bind .name fun _ _ hn => .demand (Pattern.fit_mark '(') rfl <|
    .bind agree_parameters fun _ _ hps => .demandWord rfl <|
      .bind hb.upToEnd fun _ _ hvs => .closing (C.ofMethod hn hps hvs)

lemma agree_item (h : ExprsAgree C 0 inner inner') (hb : BlocksAgree C body body') :
    Agree C.toTokenComparison (ItemsAlike C) (item inner body) (item inner' body') := by
  refine .branch (Pattern.fit_keyword .LET) rfl ?_ (.branch (Pattern.fit_keyword .DEF) rfl ?_ ?_)
  · exact .bind (agree_field h) fun _ _ hf => .pure (.field hf)
  · exact .bind (agree_method hb) fun _ _ hm => .pure (.method hm)
  · intro ts ts' hts
    cases hts with
    | nil => exact .complaint (C.same _) .nil
    | cons ht hts => exact .complaint (C.unexpected ht) (.cons ht hts)

lemma agree_items {item item' : Rule Item}
    (h : Agree C.toTokenComparison (ItemsAlike C) item item') {bound bound' : List Token}
    (hb : C.Tokens bound bound') :
    Agree C.toTokenComparison (fun found found' => C.source (.ofItems found) (.ofItems found'))
      (items item bound) (items item' bound') := by
  induction hb with
  | nil => exact .pure C.empty
  | cons _ _ ih =>
    intro ts ts' hts
    rw [items_cons, items_cons]
    cases hts with
    | nil => exact .ok C.empty .nil
    | cons ht hts =>
      refine Agree.bind h (fun v v' hv => .bind ih fun vs vs' hvs => .pure ?_) _ _ (.cons ht hts)
      cases hv with
      | field hf => exact C.addField hf hvs
      | method hm => exact C.addMethod hm hvs

end

/-- **On alike tokens alike sources are read**, or the two runs stop alike. -/
lemma agree_source (C : Comparison) (levels : Nat) :
    Agree C.toTokenComparison C.source (source C.side levels) (source C.side' levels) :=
  .get fun _ _ hts => .bind
    (agree_items (agree_item (agree_expression C levels) (agree_block C levels)) hts)
    fun _ _ hs => .pure hs

end Rule

end Pebble

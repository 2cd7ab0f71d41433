import Pebble.Proofs.Grammar.Progress

/-!
Semicolons: wherever a rule stops, a semicolon is reported as missing for one cause alone, and only
where none comes next.
-/

namespace Pebble.Rule

variable {α β : Type} {ts rest : List Token}

/-- A rule that reports a semicolon as missing for no other cause, and only where none comes
next. -/
class Sincere (r : Rule α) : Prop where
  missing (r) {ts rest : List Token} {cause : Complaint} :
    r ts = .error (.complaint cause) rest → cause.kind = .missingSemicolon →
      cause = .missingSemicolon ∧ Clear [.mark ';'] rest

/-! ### The steps -/

lemma Sincere.of_mild {r : Rule α} (h : ∀ ts cause rest, r ts ≠ .error (.complaint cause) rest) :
    Sincere r :=
  ⟨fun hr => absurd hr (h _ _ _)⟩

lemma Sincere.refuse {cause : Complaint} (h : cause.kind ≠ .missingSemicolon) :
    Sincere (refuse cause : Rule α) := by
  refine ⟨fun hr hkind => ?_⟩
  rw [refuse_apply] at hr
  cases hr
  exact absurd hkind h

instance (v : α) : Sincere (pure v) := .of_mild nofun

instance : Sincere get := .of_mild nofun

instance {r : Rule α} {f : α → Rule β} [Sincere r] [h : ∀ v, Sincere (f v)] :
    Sincere (r >>= f) := by
  refine ⟨fun {ts rest cause} hr hkind => ?_⟩
  rw [bind_apply] at hr
  rcases hv : r ts with ⟨v, mid⟩ | ⟨stop, mid⟩ <;> rw [hv] at hr
  · exact (h v).missing hr hkind
  · cases hr
    exact Sincere.missing r hv hkind

instance {r : Rule (Option α)} {f : Option α → Rule β} [Sincere r] [hnone : Sincere (f none)]
    [hsome : ∀ v, Sincere (f (some v))] : Sincere (r >>= f) := by
  have h : ∀ found, Sincere (f found)
    | none => hnone
    | some v => hsome v
  infer_instance

instance (c : Prop) [Decidable c] {r s : Rule α} [Sincere r] [Sincere s] :
    Sincere (if c then r else s) := by
  split <;> infer_instance

instance (patterns : List Pattern) : Sincere (accept? patterns) := by
  refine .of_mild fun ts cause rest => ?_
  rcases ts with _ | ⟨t, ts⟩
  · exact nofun
  · rw [accept?_cons]
    split <;> exact nofun

instance (patterns : List Pattern) : Sincere (check patterns) := by
  unfold check
  infer_instance

instance (pattern : Pattern) : Sincere (accepts pattern) := by
  unfold accepts
  infer_instance

instance {pattern : Pattern} {x y : Rule α} [Sincere x] [Sincere y] :
    Sincere (accepts pattern >>= fun found => if found = true then x else y) :=
  inferInstance

instance : Sincere name := by
  refine ⟨fun {ts rest cause} hr hkind => ?_⟩
  by_cases hclear : Clear [.name] ts
  · rw [name_of_clear hclear] at hr
    cases hr
    exact absurd hkind (by decide)
  · rcases ts with _ | ⟨t, ts⟩
    · exact absurd (clear_nil _) hclear
    · rw [name_of_eq (by simpa using hclear)] at hr
      cases hr

lemma Sincere.demand {pattern : Pattern} {kind : ComplaintKind} (h : kind ≠ .missingSemicolon) :
    Sincere (demand pattern kind) := by
  have hrefuse : Sincere (Rule.refuse (.missing pattern kind) : Rule Token) := .refuse h
  rw [← bind_pure (Rule.demand pattern kind), demand_bind]
  infer_instance

instance {r : Rule α} [Sincere r] : Sincere (discard r) := by
  rw [← bind_pure (discard r), discard_bind]
  infer_instance

instance (word : Keyword) : Sincere (demandWord word) := by
  have hdemand : Sincere (demand (.keyword word) .missingKeyword) := .demand (by decide)
  unfold demandWord
  infer_instance

instance : Sincere closing := inferInstanceAs (Sincere (demandWord .END))

/-- The semicolon itself is missing only where none comes next. -/
instance : Sincere semicolon := by
  refine ⟨fun {ts rest cause} hr _ => ?_⟩
  by_cases hclear : Clear [.mark ';'] ts
  · rw [semicolon, branch_of_clear (Pattern.fit_mark ';') hclear] at hr
    cases hr
    exact ⟨rfl, hclear⟩
  · rcases ts with _ | ⟨t, ts⟩
    · exact absurd (clear_nil _) hclear
    · rw [semicolon, branch_of_eq (Pattern.fit_mark ';') (by simpa using hclear)] at hr
      cases hr

instance {c : Char} {r : Rule α} [Sincere r] : Sincere (after? c r) := by
  unfold after?
  infer_instance

instance (item : Rule α) [Sincere item] (bound : List Token) : Sincere (others item bound) := by
  induction bound with
  | nil => exact inferInstanceAs (Sincere (pure _))
  | cons _ _ _ =>
    unfold others
    infer_instance

instance (item : Rule α) [Sincere item] : Sincere (commaSeparated item) := by
  unfold commaSeparated
  infer_instance

/-! ### Expressions -/

section

variable {inner : Rule Expr} [Sincere inner]

instance : Sincere (arguments inner) := by
  have hrefuse : Sincere (refuse .unclosedArguments : Rule (List Expr)) := .refuse (by decide)
  unfold arguments
  infer_instance

instance (name : Text) : Sincere (named inner name) := by
  unfold named
  infer_instance

instance : Sincere (grouped inner) := by
  have hdemand : Sincere (demand (.mark ')') .unclosedGroup) := .demand (by decide)
  unfold grouped
  infer_instance

instance : Sincere (primary inner) := by
  refine ⟨fun {ts rest cause} hr hkind => ?_⟩
  rcases ts with _ | ⟨t, ts⟩
  · rw [primary_nil] at hr
    cases hr
    exact absurd hkind (by decide)
  · rw [primary_cons] at hr
    split at hr
    · cases hr
    · cases hr
    split at hr
    · exact Sincere.missing (named inner t.literal) hr hkind
    split at hr
    · exact Sincere.missing (grouped inner) hr hkind
    · cases hr
      exact absurd hkind (by decide)

instance (receiver : Expr) (bound : List Token) : Sincere (members inner receiver bound) := by
  induction bound generalizing receiver with
  | nil => exact inferInstanceAs (Sincere (pure _))
  | cons _ _ _ =>
    unfold members
    infer_instance

instance : Sincere (secondary inner) := by
  unfold secondary
  infer_instance

end

instance {operators : List Pattern} {operand : Rule α} [Sincere operand] (bound : List Token) :
    Sincere (links operators operand bound) := by
  induction bound with
  | nil => exact inferInstanceAs (Sincere (pure _))
  | cons _ _ _ =>
    unfold links
    infer_instance

instance {side : Associativity} {combine : Text → α → α → α} {operators : List Pattern}
    {operand : Rule α} [Sincere operand] : Sincere (chain side combine operators operand) := by
  unfold chain
  infer_instance

instance {side : Associativity} {l : Level} {operand : Rule Expr} [Sincere operand] :
    Sincere (level side l operand) := inferInstanceAs (Sincere (chain _ _ _ _))

instance {side : Associativity} {inner : Rule Expr} [Sincere inner] :
    Sincere (logical side inner) :=
  inferInstanceAs (Sincere (level _ _ (level _ _ (level _ _ (level _ _ (secondary inner))))))

instance (side : Associativity) (levels : Nat) : Sincere (expression side levels) := by
  induction levels with
  | zero => exact .refuse (by decide)
  | succ levels _ => exact inferInstanceAs (Sincere (logical side (expression side levels)))

/-! ### Statements -/

section

variable {inner : Rule Expr} [Sincere inner] {block : List Pattern → Rule (List Stmt)}
  [∀ terminators, Sincere (block terminators)]

instance : Sincere (declaration inner) := by
  unfold declaration
  infer_instance

instance (f : List Stmt → α) : Sincere (elsePart block f) := by
  unfold elsePart
  infer_instance

instance : Sincere (ifElse inner block) := by
  rw [ifElse_eq]
  infer_instance

instance : Sincere (forIn inner block) := by
  unfold forIn
  infer_instance

instance : Sincere (whileDo inner block) := by
  unfold whileDo
  infer_instance

instance : Sincere (returning inner) := by
  unfold returning
  infer_instance

instance : Sincere (assignment inner) := by
  unfold assignment
  infer_instance

instance : Sincere (statementOf inner block) := by
  unfold statementOf
  infer_instance

end

instance {terminators : List Pattern} {statement : Rule Stmt} [Sincere statement]
    (bound : List Token) : Sincere (statements terminators statement bound) := by
  have hrefuse : Sincere (refuse (.unclosedBlock terminators) : Rule (List Stmt)) := .refuse nofun
  induction bound with
  | nil => exact hrefuse
  | cons _ _ _ =>
    unfold statements
    infer_instance

instance {terminators : List Pattern} {statement : Rule Stmt} [Sincere statement] :
    Sincere (blockOf statement terminators) := by
  unfold blockOf
  infer_instance

instance (side : Associativity) (levels : Nat) (terminators : List Pattern) :
    Sincere (block side levels terminators) := by
  induction levels generalizing terminators with
  | zero => exact .refuse (by decide)
  | succ levels _ =>
    have hstatement : Sincere (statement side levels) := by
      rw [statement_eq]
      infer_instance
    exact inferInstanceAs (Sincere (blockOf (statement side levels) terminators))

/-! ### Sources -/

section

variable {inner : Rule Expr} [Sincere inner] {block : List Pattern → Rule (List Stmt)}
  [∀ terminators, Sincere (block terminators)]

instance : Sincere (field inner) := by
  unfold field
  infer_instance

instance : Sincere parameters := by
  have hdemand : Sincere (demand (.mark ')') .unclosedParameters) := .demand (by decide)
  unfold parameters
  infer_instance

instance : Sincere (method block) := by
  have hdemand : Sincere (demand (.mark '(') .expectedParameters) := .demand (by decide)
  unfold method
  infer_instance

instance : Sincere (unexpected : Rule α) := by
  refine ⟨fun {ts rest cause} hr hkind => ?_⟩
  cases ts <;> cases hr <;> exact absurd hkind nofun

instance : Sincere (item inner block) := by
  unfold item
  infer_instance

end

instance {item : Rule Item} [Sincere item] (bound : List Token) : Sincere (items item bound) := by
  induction bound with
  | nil => exact inferInstanceAs (Sincere (pure _))
  | cons _ _ _ =>
    unfold items
    infer_instance

instance (side : Associativity) (levels : Nat) : Sincere (source side levels) := by
  unfold source
  infer_instance

end Pebble.Rule

import Pebble.Proofs.Grammar.Frontier

/-!
Following the rules: where each rule stops within a run of the same rule with more levels, which
terminals it leaves open, and which kind of complaint is due there.
-/

namespace Pebble.Grammar

variable {α β : Type} {n : Nat} {cs : List Terminal} {inner inner' : Rule Expr}

/-- Where an expression may begin beside some other terminals, an expression is expected. -/
def Starts (cs : List Terminal) : Prop := Suits .expectedExpression (cs ++ Expression.first)

instance : Decidable (Starts cs) := inferInstanceAs (Decidable (Suits _ _))

/-- A rule for expressions is followed wherever an expression may begin. -/
def FollowsExpression (r r' : Rule Expr) (Cs : List (List Terminal)) : Prop :=
  ∀ n cs, Starts cs → Follows n cs r r' Cs

/-! ### Expressions -/

/-- The frontiers of an expression: a name may be called or not. -/
def Expression.frontiers : List (List Terminal) := [Expression.next true, Expression.next false]

/-- Only an expression's first terminals are taken by a primary expression. -/
lemma primary_of_clear {ts : List Token} (h : Clear Expression.first ts) :
    Rule.primary inner ts = .error (.complaint .expectedExpression) ts := by
  rcases ts with _ | ⟨t, ts⟩
  · exact Rule.primary_nil
  have ht : t.terminal ∉ Expression.first := clear_cons.1 h
  have hread : t.reading? = none := by
    rw [← Option.not_isSome_iff_eq_none, Token.isSome_reading?]
    exact fun hc => ht (mem_first_of_isConstant hc)
  have hname : t.terminal ≠ .name := fun hn => ht (by rw [hn]; decide)
  have hgroup : t.terminal ≠ .mark '(' := fun hg => ht (by rw [hg]; decide)
  rw [Rule.primary_cons, hread]
  dsimp only
  rw [if_neg hname, if_neg hgroup]

/-- An expression that begins with no constant begins with a name or a group. -/
lemma cases_first {t : Token} (h : t.terminal ∈ Expression.first) (hread : t.reading? = none) :
    t.terminal = .name ∨ t.terminal = .mark '(' := by
  have hconst : ¬ t.terminal.isConstant := by simp [← Token.isSome_reading?, hread]
  have hcases : ∀ c ∈ Expression.first, c.isConstant ∨ c = .name ∨ c = .mark '(' := by decide
  exact (hcases _ h).resolve_left hconst

lemma left_primary_of_mem [Rule.Orderly inner] {t : Token} {ts : List Token}
    (h : t.terminal ∈ Expression.first) : Rule.left (Rule.primary inner (t :: ts)) <:+ ts := by
  rcases hc : t.reading? with _ | fault | v
  · rcases cases_first h hc with h | h
    · rw [Rule.primary_of_name h]
      exact Rule.Orderly.suffix _ ts
    · rw [Rule.primary_of_group h]
      exact Rule.Orderly.suffix _ ts
  · rw [Rule.primary_cons, hc]
    exact List.suffix_refl _
  · rw [Rule.primary_cons, hc]
    exact List.suffix_refl _

lemma At.primary [Rule.Orderly inner] {R : Rule β} {k : Expr → Rule β} {pre : List Token}
    (h : At R pre cs (Rule.primary inner >>= k)) (hk : ∀ v, Rule.Orderly (k v)) :
    Stuck R pre (cs ++ Expression.first) :=
  h.refuses hk .expectedExpression nofun (fun ht => primary_of_clear (clear_cons.2 ht))
    left_primary_of_mem

lemma follows_grouped [Rule.Orderly inner] {Cs : List (List Terminal)} (hCs : [] ∈ Cs)
    (hi : FollowsExpression inner inner' Expression.frontiers) :
    Follows n [] (Rule.grouped inner) (Rule.grouped inner') Cs := by
  refine (hi n _ (by decide)).bind fun e ds hds => ?_
  rw [Rule.discard_bind]
  refine .demand (Pattern.fit_mark ')') nofun nofun ?_ fun t ht m hm => .pure hCs
  revert ds
  decide

section

variable [Rule.Orderly inner] [Rule.Orderly inner']

lemma follows_arguments (hi : FollowsExpression inner inner' Expression.frontiers) :
    Follows n [] (Rule.arguments inner) (Rule.arguments inner') [[]] := by
  refine .branch (Pattern.fit_mark ')') nofun (fun t ht m hm => .pure (by simp)) ?_
  have hitem : ∀ n, Follows n [] inner inner' Expression.frontiers := fun n => hi n _ (by decide)
  refine (follows_commaSeparated (hi n _ (by decide)) hitem).bind fun vs ds hds => ?_
  refine .branch (Pattern.fit_mark ')') nofun (fun t ht m hm => .pure (by simp)) ?_
  refine .refuse nofun nofun ?_ fun _ => rfl
  revert ds
  decide

lemma follows_named (hi : FollowsExpression inner inner' Expression.frontiers) (name : Text) :
    Follows n [] (Rule.named inner name) (Rule.named inner' name) [[], [.mark '(']] := by
  refine .branch (Pattern.fit_mark '(') nofun (fun t ht m hm => ?_) (.pure (by simp))
  exact (follows_arguments hi).bind_nil fun args => .pure (by simp)

lemma follows_primary (hi : FollowsExpression inner inner' Expression.frontiers) :
    FollowsExpression (Rule.primary inner) (Rule.primary inner') [[], [.mark '(']] := by
  intro n cs hcs β R k pre ts hk hlen hrest hat
  -- nothing that begins an expression comes next: the rule stops, and so does the run
  by_cases hclear : Clear Expression.first ts
  · rw [primary_of_clear hclear]
    exact Stops.stuck nofun hcs (hrest.append hclear (by decide)) (hat.primary hk)
  rcases ts with _ | ⟨t, ts⟩
  · exact absurd (clear_nil _) hclear
  have ht : t.terminal ∉ cs := clear_cons.1 hrest.clear
  rcases hc : t.reading? with _ | fault | v
  · have hfirst : t.terminal ∈ Expression.first := by simpa using hclear
    rcases cases_first hfirst hc with h | h
    · rw [Rule.primary_of_name h]
      refine .append [t] (follows_named hi t.literal hk le_rfl (rests_nil ts) ?_)
      exact hat.take ht fun ts => by simp only [Rule.bind_apply, Rule.primary_of_name h]
    · rw [Rule.primary_of_group h]
      refine .append [t] (follows_grouped (by simp) hi hk le_rfl (rests_nil ts) ?_)
      exact hat.take ht fun ts => by simp only [Rule.bind_apply, Rule.primary_of_group h]
  · rw [Rule.primary_cons, hc]
    trivial
  · -- a constant is taken whatever rule reads the expressions inside
    have hprimary : ∀ (inner : Rule Expr) ts,
        Rule.primary inner (t :: ts) = .ok (.literal v) ts := by
      intro inner ts
      rw [Rule.primary_cons, hc]
    rw [hprimary]
    exact ⟨[t], [], by simp, rfl, rests_nil ts, hat.take ht fun ts => Rule.bind_ok (hprimary _ ts)⟩

lemma follows_members (hi : FollowsExpression inner inner' Expression.frontiers) (e : Expr)
    (hcs : cs ∈ [[], [.mark '(']]) :
    Follows n cs (get >>= Rule.members inner e) (get >>= Rule.members inner' e)
      [Secondary.next true, Secondary.next false] := by
  -- On the tokens that are left, of which each round takes two at least.
  induction n using Nat.strong_induction_on generalizing cs e with
  | _ n ih =>
    rw [Rule.members_get inner, Rule.members_get inner']
    refine .branch (Pattern.fit_mark '.') nofun (fun t ht m hm => ?_) (.pure ?_)
    · refine (Follows.name (by decide)).bind_nil fun name => ?_
      refine .branch (Pattern.fit_mark '(') nofun (fun t ht l hl => ?_) ?_
      · exact (follows_arguments hi).bind_nil fun args => ih l (hl.trans hm) _ (by simp)
      · exact ih m hm _ (by simp)
    · revert cs
      decide

lemma follows_secondary (hi : FollowsExpression inner inner' Expression.frontiers) :
    FollowsExpression (Rule.secondary inner) (Rule.secondary inner')
      [Secondary.next true, Secondary.next false] := by
  intro n cs hcs
  rw [Rule.secondary_eq, Rule.secondary_eq]
  exact (follows_primary hi n cs hcs).bind fun e ds hds => follows_members hi e hds

end

section

variable {side : Associativity} {level : Level} {operand operand' : Rule Expr}
  [Rule.Orderly operand] [Rule.Orderly operand'] {Ds : List (List Terminal)}

lemma follows_links (ho : FollowsExpression operand operand' Ds) {ds : List Terminal}
    (hds : ds ∈ Ds) :
    Follows n ds (get >>= Rule.links (level.operators.map .operator) operand)
      (get >>= Rule.links (level.operators.map .operator) operand')
      (Ds.map (· ++ Level.terminals level)) := by
  induction n using Nat.strong_induction_on generalizing ds with
  | _ n ih =>
    have hend : .word .END ∉ Level.terminals level := by cases level <;> decide
    rw [Rule.links_get _ operand, Rule.links_get _ operand']
    refine .accept? (Pattern.fit_operators _) hend (fun t ht m hm => ?_) ?_
    · refine (ho m _ (by decide)).bind fun e es hes => (ih m hm hes).bind fun ls fs hfs => ?_
      exact .pure hfs
    · exact .pure (List.mem_map.2 ⟨ds, hds, rfl⟩)

/-- The operators of a level are left open after what its operands leave open. -/
lemma follows_level (ho : FollowsExpression operand operand' Ds) :
    FollowsExpression (Rule.level side level operand) (Rule.level side level operand')
      (Ds.map (· ++ Level.terminals level)) := by
  intro n cs hcs
  rw [Rule.level, Rule.level, Rule.chain_eq, Rule.chain_eq]
  exact (ho n cs hcs).bind fun e ds hds => (follows_links ho hds).bind fun ls es hes => .pure hes

end

/-- An expression is followed within the same with more levels. -/
lemma follows_expression (side : Associativity) {levels most : Nat} (hlt : levels < most) :
    FollowsExpression (Rule.expression side levels) (Rule.expression side most)
      Expression.frontiers := by
  induction levels generalizing most with
  | zero => exact fun _ _ _ => .nesting
  | succ levels ih =>
    obtain ⟨most, rfl⟩ : ∃ k, most = k + 1 := ⟨most - 1, by omega⟩
    have hi := ih (by omega : levels < most)
    exact follows_level (follows_level (follows_level (follows_level (follows_secondary hi))))

/-! ### Blocks -/

/-- The terminators of blocks, as patterns and as terminals. -/
inductive Closes : List Pattern → List Terminal → Prop
  | last : Closes [.keyword .END] [.word .END]
  | inner : Closes [.keyword .ELSE, .keyword .END] [.word .ELSE, .word .END]

lemma Closes.fit {terminators : List Pattern} {ds : List Terminal} (h : Closes terminators ds) :
    Pattern.Fit terminators ds := by
  cases h with
  | last => exact Pattern.fit_keyword .END
  | inner => exact Pattern.fit_keywords .ELSE .END

/-- What has become of a block within the run `R`: it has come to a terminator, where `R` is at what
goes on after the block, or it has stopped. -/
def BlockOutcome (R : Rule β) (k : List Stmt → Rule β) (ds : List Terminal) (pre ts : List Token) :
    EStateM.Result Stop (List Token) (List Stmt) → Prop
  | .ok v rest => ∃ used t more, ts = used ++ rest ∧ rest = t :: more ∧ t.terminal ∈ ds ∧
      ∀ us, R (pre ++ used ++ t :: us) = k v (t :: us)
  | .error stop rest => Stops R pre ts stop rest

/-- A rule for blocks is followed up to a terminator, if the run goes on by taking it. -/
def FollowsBlock (body body' : List Pattern → Rule (List Stmt)) : Prop :=
  ∀ ⦃terminators ds⦄, Closes terminators ds → ∀ ⦃β : Type⦄ ⦃R : Rule β⦄ ⦃k : List Stmt → Rule β⦄
    ⦃pre : List Token⦄, (∀ v, Rule.Orderly (k v)) →
    (∀ v t ts, t.terminal ∈ ds → Rule.left (k v (t :: ts)) <:+ ts) →
    At R pre [] (body' terminators >>= k) →
    ∀ ts, BlockOutcome R k ds pre ts (body terminators ts)

/-! ### Statements -/

section

variable {side : Associativity} {levels : Nat} {body : List Pattern → Rule (List Stmt)}
  [∀ terminators, Rule.Orderly (body terminators)]

lemma expression_of_clear {ts : List Token} (h : Clear Expression.first ts) :
    Rule.expression side (levels + 1) ts = .error (.complaint .expectedExpression) ts :=
  Rule.bind_error (Rule.bind_error (Rule.bind_error (Rule.bind_error (Rule.bind_error
    (primary_of_clear h)))))

lemma left_level_suffix {level : Level} (operand : Rule Expr) [Rule.Orderly operand]
    (ts : List Token) :
    Rule.left (Rule.level side level operand ts) <:+ Rule.left (operand ts) := by
  rw [Rule.level, Rule.chain_eq]
  exact Rule.left_bind_suffix (fun _ => inferInstance) ts

lemma left_expression_of_mem {t : Token} {ts : List Token} (h : t.terminal ∈ Expression.first) :
    Rule.left (Rule.expression side (levels + 1) (t :: ts)) <:+ ts := by
  refine (left_level_suffix _ _).trans <| (left_level_suffix _ _).trans <|
    (left_level_suffix _ _).trans <| (left_level_suffix _ _).trans ?_
  rw [Rule.secondary_eq]
  exact (Rule.left_bind_suffix (fun _ => inferInstance) _).trans (left_primary_of_mem h)

lemma left_branch {t : Token} {ts : List Token} {w : Keyword} {x y : Rule α} [Rule.Orderly x]
    (hy : t.terminal ≠ .word w → Rule.left (y (t :: ts)) <:+ ts) :
    Rule.left ((Rule.accepts (.keyword w) >>= fun found => if found = true then x else y)
      (t :: ts)) <:+ ts := by
  by_cases h : t.terminal = .word w
  · rw [Rule.branch_of_eq (Pattern.fit_keyword w) h]
    exact Rule.Orderly.suffix x ts
  · rw [Rule.branch_of_clear (Pattern.fit_keyword w) (by simpa using h)]
    exact hy h

/-- A run at a statement takes the terminals that begin statements. -/
lemma At.statementOf {R : Rule β} {k : Stmt → Rule β} {pre : List Token}
    (h : At R pre cs (Rule.statementOf (Rule.expression side (levels + 1)) body >>= k))
    (hk : ∀ v, Rule.Orderly (k v)) : Stuck R pre (cs ++ Statement.first) := by
  refine h.refuses hk .expectedExpression nofun (fun {t ts} ht => ?_) fun {t ts} ht => ?_
  · rw [statementOf_of_clear (clear_cons.2 fun hw => ht (List.mem_append_left _ hw))]
    exact Rule.bind_error (expression_of_clear (clear_cons.2 fun hx =>
      ht (List.mem_append_right _ hx)))
  · refine left_branch fun hlet => left_branch fun hif => left_branch fun hfor =>
      left_branch fun hwhile => left_branch fun hreturn => ?_
    have hx : t.terminal ∈ Expression.first := by
      refine (List.mem_append.1 ht).resolve_left fun hw => ?_
      simp [Statement.words, hlet, hif, hfor, hwhile, hreturn] at hw
    exact (Rule.left_assignment_suffix _).trans (left_expression_of_mem hx)

end

section

variable {statement statement' : Rule Stmt} [Rule.Advances statement] [Rule.Advances statement']

/-- A run at a block takes the terminators of the block, and at other tokens it is at a
statement. -/
lemma At.blockOf {R : Rule β} {k : List Stmt → Rule β} {pre : List Token}
    {terminators : List Pattern} {ds : List Terminal} (hfit : Pattern.Fit terminators ds)
    (hk : ∀ v t ts, t.terminal ∈ ds → Rule.left (k v (t :: ts)) <:+ ts)
    (h : At R pre [] (Rule.blockOf statement' terminators >>= k)) :
    At R pre ds (statement' >>= fun first =>
      Rule.blockOf statement' terminators >>= fun others => k (first :: others)) := by
  refine h.decline (fun {t ts} ht => ?_) fun {t ts} ht => ?_
  · rw [Rule.bind_apply, Rule.blockOf_cons, if_neg fun hp => ht ((hfit t).1 hp), ← Rule.bind_apply]
    simp only [bind_assoc, pure_bind]
  · rw [Rule.bind_ok ((Rule.blockOf_cons t ts).trans (if_pos ((hfit t).2 ht)))]
    exact hk [] t ts ht

/-- A block is followed if its statements are, and if a run at a statement takes the terminals that
begin statements. -/
lemma follows_blockOf
    (hs : ∀ {terminators ds}, Closes terminators ds → ∀ n, Follows n ds statement statement' [[]])
    (hstart : ∀ {β : Type} {R : Rule β} {k : Stmt → Rule β} {pre : List Token}
      {cs : List Terminal}, At R pre cs (statement' >>= k) → (∀ v, Rule.Orderly (k v)) →
      Stuck R pre (cs ++ Statement.first)) :
    FollowsBlock (Rule.blockOf statement) (Rule.blockOf statement') := by
  intro terminators ds hcloses β R k pre hk htake hat ts
  have hfit := hcloses.fit
  -- On the tokens that are left. A statement that is read goes in front of the others, which are
  -- left to a continuation of their own.
  induction hn : ts.length using Nat.strong_induction_on generalizing pre ts k with
  | _ n ih =>
    have hat' := hat.blockOf hfit htake
    rcases ts with _ | ⟨t, ts⟩
    · -- at the end a terminator is missing, or a statement
      refine .inr ⟨[], rfl, nofun, ds ++ Statement.first, clear_nil _, ?_, ?_⟩
      · rw [List.append_nil]
        exact hstart hat' fun v => inferInstance
      · cases hcloses <;> decide
    rw [Rule.blockOf_cons]
    by_cases ht : t.terminal ∈ ds
    · rw [if_pos ((hfit t).2 ht)]
      -- the block ends here, without its terminator
      refine ⟨[], t, ts, rfl, rfl, ht, fun us => ?_⟩
      rw [List.append_nil, hat.eq List.not_mem_nil]
      exact Rule.bind_ok ((Rule.blockOf_cons t us).trans (if_pos ((hfit t).2 ht)))
    · rw [if_neg fun hp => ht ((hfit t).1 hp)]
      have hrest : Rests ds (t :: ts) := ⟨clear_cons.2 ht, fun _ => List.cons_ne_nil t ts⟩
      have hout := hs hcloses _ (fun v => inferInstance) le_rfl hrest hat'
      rw [Rule.bind_apply]
      rcases hres : statement (t :: ts) with ⟨v, rest⟩ | ⟨stop, rest⟩ <;> rw [hres] at hout
      · obtain ⟨used, es, hes, hts, hrest, hat⟩ := hout
        obtain rfl : es = [] := by simpa using hes
        have hlt : rest.length < n := hn ▸ Rule.Advances.length_lt statement hres
        have hblock := ih _ hlt (k := fun others => k (v :: others)) (fun _ => hk _)
          (fun vs => htake (v :: vs)) hat rest rfl
        rw [hts]
        dsimp only
        rw [Rule.bind_apply]
        rcases hres' : Rule.blockOf statement terminators rest with ⟨vs, rest'⟩ | ⟨stop, rest'⟩ <;>
          rw [hres'] at hblock
        · obtain ⟨used', u, more, hts', hrest', hu, heq⟩ := hblock
          refine ⟨used ++ used', u, more, by simp [hts'], hrest', hu, fun us => ?_⟩
          simpa using heq us
        · exact Stops.append used hblock
      · exact hout

end

lemma At.of_eq {R r : Rule β} {pre used : List Token} {t : Token}
    (h : ∀ us, R (pre ++ used ++ t :: us) = r us) : At R (pre ++ (used ++ [t])) [] r where
  eq {u us} _ := by simpa using h (u :: us)
  taken := nofun

/-! ### Statements -/

section

variable {body body' : List Pattern → Rule (List Stmt)}

/-- A block is followed through the `END` that closes the statement, which never is missing. -/
lemma follows_closed (hb : FollowsBlock body body') (f : List Stmt → α) :
    Follows n [] (body [.keyword .END] >>= fun vs => Rule.closing >>= fun _ => pure (f vs))
      (body' [.keyword .END] >>= fun vs => Rule.closing >>= fun _ => pure (f vs)) [[]] := by
  intro β R k pre ts hk hlen hrest hat
  simp only [bind_assoc, pure_bind] at hat
  -- the run goes on by taking the `END` to which the block has come
  have hout := hb .last (fun _ => inferInstance) (fun vs t us ht => ?_) hat ts
  · rw [Rule.bind_apply]
    rcases hres : body [.keyword .END] ts with ⟨vs, rest⟩ | ⟨stop, rest⟩ <;> rw [hres] at hout
    · obtain ⟨used, t, more, hts, rfl, ht, heq⟩ := hout
      have hend : t.terminal = .word .END := by simpa using ht
      dsimp only
      rw [Rule.closing_of_eq hend]
      refine ⟨used ++ [t], [], by simp, by simp [hts], rests_nil more, .of_eq fun us => ?_⟩
      rw [heq]
      exact Rule.closing_of_eq hend
    · exact hout
  · rw [Rule.closing_of_eq (by simpa using ht)]
    exact (hk _).suffix us

/-- The blocks of a conditional are followed through the `ELSE` between them, if it is there, and
the `END`. -/
lemma follows_thenElse [∀ terminators, Rule.Orderly (body' terminators)]
    (hb : FollowsBlock body body') (f : List Stmt → List Stmt → α) :
    Follows n []
      (body [.keyword .ELSE, .keyword .END] >>= fun vs => Rule.elsePart body (f vs))
      (body' [.keyword .ELSE, .keyword .END] >>= fun vs => Rule.elsePart body' (f vs)) [[]] := by
  have or_of_mem : ∀ {t : Token}, t.terminal ∈ [Terminal.word .ELSE, .word .END] →
      t.terminal = .word .ELSE ∨ t.terminal = .word .END := fun ht => by simpa using ht
  intro β R k pre ts hk hlen hrest hat
  rw [bind_assoc] at hat
  have hout := hb .inner (fun _ => inferInstance) (fun vs t us ht => ?_) hat ts
  · rw [Rule.bind_apply]
    rcases hres : body [.keyword .ELSE, .keyword .END] ts with ⟨vs, rest⟩ | ⟨stop, rest⟩ <;>
      rw [hres] at hout
    · obtain ⟨used, t, more, hts, rfl, ht, heq⟩ := hout
      rw [List.append_cons] at hts
      rw [hts]
      dsimp only at heq ⊢
      -- `ELSE` leads to another block with its `END`, and `END` to the end
      rcases or_of_mem ht with ht | ht
      · rw [Rule.elsePart_of_else ht]
        refine .append _ (follows_closed hb (f vs) hk le_rfl (rests_nil more) (.of_eq fun us => ?_))
        rw [heq, Rule.bind_apply, Rule.elsePart_of_else ht, ← Rule.bind_apply]
      · rw [Rule.elsePart_of_end ht]
        refine ⟨used ++ [t], [], by simp, rfl, rests_nil more, .of_eq fun us => ?_⟩
        rw [heq]
        exact Rule.bind_ok (Rule.elsePart_of_end ht)
    · exact hout
  · refine (Rule.left_bind_suffix hk _).trans ?_
    rcases or_of_mem ht with ht | ht
    · rw [Rule.elsePart_of_else ht]
      exact Rule.Orderly.suffix _ us
    · rw [Rule.elsePart_of_end ht]
      exact List.suffix_refl _

section

variable [Rule.Advances inner] (hi : FollowsExpression inner inner' Expression.frontiers)

include hi

lemma follows_declaration [Rule.Advances inner'] :
    Follows n [] (Rule.declaration inner) (Rule.declaration inner') [[]] := by
  refine (Follows.name (by decide)).bind_nil fun name => ?_
  refine (Follows.after? fun m _ => hi m [] (by decide)).bind fun value es hes => ?_
  refine .semicolon ?_ fun m hm => .pure (by simp)
  revert es
  decide

lemma follows_returning : Follows n [] (Rule.returning inner) (Rule.returning inner') [[]] := by
  refine (hi n [] (by decide)).bind fun v ds hds => .semicolon ?_ fun m hm => .pure (by simp)
  revert ds
  decide

lemma follows_assignment [Rule.Advances inner'] (hcs : Starts cs) :
    Follows n cs (Rule.assignment inner) (Rule.assignment inner') [[]] := by
  refine (hi n cs hcs).bind fun receiver ds hds => ?_
  rw [Rule.after?_bind, Rule.after?_bind]
  refine .accept? (Pattern.fit_mark '=') (by decide) (fun t ht m hm => ?_) (.semicolon ?_ ?_)
  · refine (hi m [] (by decide)).bind fun v es hes => .semicolon ?_ fun l hl => .pure (by simp)
    revert es
    decide
  · revert ds
    decide
  · exact fun m hm => .pure (by simp)

variable [∀ terminators, Rule.Orderly (body' terminators)] (hb : FollowsBlock body body')

include hb

lemma follows_ifElse : Follows n [] (Rule.ifElse inner body) (Rule.ifElse inner' body') [[]] := by
  rw [Rule.ifElse_eq, Rule.ifElse_eq]
  refine (hi n [] (by decide)).bind fun c es hes => .demandWord (by decide) ?_ fun m hm => ?_
  · revert es
    decide
  · exact follows_thenElse hb _

lemma follows_whileDo :
    Follows n [] (Rule.whileDo inner body) (Rule.whileDo inner' body') [[]] := by
  refine (hi n [] (by decide)).bind fun c es hes => .demandWord (by decide) ?_ fun m hm => ?_
  · revert es
    decide
  · exact follows_closed hb _

variable [Rule.Advances inner']

lemma follows_forIn : Follows n [] (Rule.forIn inner body) (Rule.forIn inner' body') [[]] := by
  refine (Follows.name (by decide)).bind_nil fun name => ?_
  refine .demandWord (by decide) (by decide) fun m hm => ?_
  refine (hi m [] (by decide)).bind fun v es hes => .demandWord (by decide) ?_ fun l hl => ?_
  · revert es
    decide
  · exact follows_closed hb _

/-- A statement is followed in a block, where it may also be the terminators that come next. -/
lemma follows_statementOf {terminators : List Pattern} {ds : List Terminal}
    (hcloses : Closes terminators ds) :
    Follows n ds (Rule.statementOf inner body) (Rule.statementOf inner' body') [[]] := by
  refine .branch (Pattern.fit_keyword .LET) nofun (fun _ _ m _ => follows_declaration hi) ?_
  refine .branch (Pattern.fit_keyword .IF) nofun (fun _ _ m _ => follows_ifElse hi hb) ?_
  refine .branch (Pattern.fit_keyword .FOR) nofun (fun _ _ m _ => follows_forIn hi hb) ?_
  refine .branch (Pattern.fit_keyword .WHILE) nofun (fun _ _ m _ => follows_whileDo hi hb) ?_
  refine .branch (Pattern.fit_keyword .RETURN) nofun (fun _ _ m _ => follows_returning hi) ?_
  refine follows_assignment hi ?_
  cases hcloses <;> decide

end

end

lemma follows_block {side : Associativity} {levels most : Nat} (hlt : levels < most) :
    FollowsBlock (Rule.block side levels) (Rule.block side most) := by
  induction levels generalizing most with
  | zero => exact fun _ _ _ _ _ _ _ _ _ _ _ => .inl rfl
  | succ levels ih =>
    obtain ⟨most, rfl⟩ : ∃ k, most = k + 2 := ⟨most - 2, by omega⟩
    have hi := follows_expression side (by omega : levels < most + 1)
    have hb := ih (by omega : levels < most + 1)
    refine follows_blockOf (fun hcloses n => ?_) fun hat hk => ?_
    · rw [Rule.statement_eq, Rule.statement_eq]
      exact follows_statementOf hi hb hcloses
    · rw [Rule.statement_eq] at hat
      exact hat.statementOf hk

/-! ### Sources -/

section

variable {body body' : List Pattern → Rule (List Stmt)}

lemma follows_field [Rule.Advances inner] [Rule.Advances inner']
    (hi : FollowsExpression inner inner' Expression.frontiers) :
    Follows n [] (Rule.field inner) (Rule.field inner') [[]] := by
  have hname : ∀ n, Follows n [] Rule.name Rule.name [[]] := fun n => .name (by decide)
  refine (hname n).bind_nil fun name => ?_
  refine (Follows.after? fun m _ => hname m).bind fun typeName es hes => ?_
  refine (Follows.after? fun m _ => hi m [] (by decide)).bind fun value fs hfs => ?_
  refine .semicolon ?_ fun m hm => .pure (by simp)
  revert fs
  revert es
  decide

lemma follows_method [∀ terminators, Rule.Orderly (body' terminators)]
    (hb : FollowsBlock body body') :
    Follows n [] (Rule.method body) (Rule.method body') [[]] := by
  refine (Follows.name (by decide)).bind_nil fun name => ?_
  rw [Rule.discard_bind, Rule.discard_bind]
  refine .demand (Pattern.fit_mark '(') nofun nofun (by decide) fun t ht m hm => ?_
  refine follows_parameters.bind_nil fun names => ?_
  exact .demandWord (by decide) (by decide) fun l hl => follows_closed hb _

variable [Rule.Advances inner] [Rule.Advances inner']
  [∀ terminators, Rule.Orderly (body terminators)] [∀ terminators, Rule.Orderly (body' terminators)]

/-- An item is followed from a token on, which is unexpected if no item begins with it. -/
lemma follows_item (hi : FollowsExpression inner inner' Expression.frontiers)
    (hb : FollowsBlock body body') {R : Rule β} {k : Pebble.Item → Rule β} {pre : List Token}
    (hk : ∀ v, Rule.Orderly (k v)) (hat : At R pre [] (Rule.item inner' body' >>= k)) (t : Token)
    (ts : List Token) : Outcome R k [[]] pre (t :: ts) (Rule.item inner body (t :: ts)) := by
  -- behind the keyword the run is at the rule that the keyword leads to
  have htake : ∀ {u : Token} {r : Rule Pebble.Item},
      (∀ us, Rule.item inner' body' (u :: us) = r us) → At R (pre ++ [u]) [] (r >>= k) :=
    fun h => hat.take List.not_mem_nil fun us => by rw [Rule.bind_apply, h, ← Rule.bind_apply]
  by_cases hlet : t.terminal = .word .LET
  · rw [Rule.item_of_let hlet]
    have hfield : Follows ts.length [] (Rule.field inner >>= fun f => pure (Pebble.Item.field f))
        (Rule.field inner' >>= fun f => pure (Pebble.Item.field f)) [[]] :=
      (follows_field hi).bind fun f ds hds => .pure hds
    exact .append [t]
      (hfield hk le_rfl (rests_nil ts) (htake fun us => Rule.item_of_let hlet))
  by_cases hdef : t.terminal = .word .DEF
  · rw [Rule.item_of_def hdef]
    have hmethod : Follows ts.length [] (Rule.method body >>= fun m => pure (Pebble.Item.method m))
        (Rule.method body' >>= fun m => pure (Pebble.Item.method m)) [[]] :=
      (follows_method hb).bind fun m ds hds => .pure hds
    exact .append [t]
      (hmethod hk le_rfl (rests_nil ts) (htake fun us => Rule.item_of_def hdef))
  have ht : t.terminal ∉ [Terminal.word .LET, .word .DEF] := by simp [hlet, hdef]
  rw [Rule.item_of_ne ht]
  -- neither keyword is there, and the run would take either of them
  refine .inr ⟨[], rfl, nofun, [.word .LET, .word .DEF], clear_cons.2 ht, ⟨fun u us hu => ?_,
    fun u us hu => ?_⟩, ?_⟩
  · rw [List.append_nil, hat.eq List.not_mem_nil]
    exact ⟨.unexpectedToken u.literal, nofun, Rule.bind_error (Rule.item_of_ne hu)⟩
  · rw [List.append_nil, hat.eq List.not_mem_nil]
    refine (Rule.left_bind_suffix hk _).trans ?_
    rcases List.mem_cons.1 hu with hu | hu
    · rw [Rule.item_of_let hu]
      exact Rule.Orderly.suffix _ us
    · rw [Rule.item_of_def (by simpa using hu)]
      exact Rule.Orderly.suffix _ us
  · show Fits .unexpectedToken [.word .LET, .word .DEF] false
    decide

lemma follows_items (hi : FollowsExpression inner inner' Expression.frontiers)
    (hb : FollowsBlock body body') {R : Rule β} {k : List Pebble.Item → Rule β} {pre : List Token}
    (hk : ∀ v, Rule.Orderly (k v))
    (hat : At R pre [] ((get >>= Rule.items (Rule.item inner' body')) >>= k)) {ts rest : List Token}
    {stop : Stop}
    (h : (get >>= Rule.items (Rule.item inner body)) ts = .error stop rest) :
    Stops R pre ts stop rest := by
  -- On the tokens that are left: an item that is read goes in front, and the run is at the others.
  induction hn : ts.length using Nat.strong_induction_on generalizing pre ts k with
  | _ n ih =>
    rcases ts with _ | ⟨t, ts⟩
    · cases h
    have hat' : At R pre [] (Rule.item inner' body' >>= fun first =>
        (get >>= Rule.items (Rule.item inner' body')) >>= fun others => k (first :: others)) := by
      refine ⟨fun {u us} hu => ?_, nofun⟩
      rw [hat.eq hu, Rule.bind_apply, Rule.items_get_cons, ← Rule.bind_apply]
      simp only [bind_assoc, pure_bind]
    have hout := follows_item hi hb (fun _ => inferInstance) hat' t ts
    rw [Rule.items_get_cons, Rule.bind_apply] at h
    rcases hres : Rule.item inner body (t :: ts) with ⟨v, mid⟩ | ⟨stop', mid⟩ <;>
      rw [hres] at h hout
    · obtain ⟨used, es, hes, hts, hrest, hat⟩ := hout
      obtain rfl : es = [] := by simpa using hes
      rw [hts]
      have hlt : mid.length < n := hn ▸ Rule.Advances.length_lt _ hres
      refine .append used (ih _ hlt (k := fun others => k (v :: others)) (fun _ => hk _) hat ?_ rfl)
      dsimp only at h
      rw [Rule.bind_apply] at h
      rcases hmid : (get >>= Rule.items (Rule.item inner body)) mid with
        ⟨vs, left⟩ | ⟨stop', left⟩ <;> rw [hmid] at h <;> cases h
      rfl
    · cases h
      exact hout

end

/-- Where a source stops, the same source with more levels is stuck, unless the level that the first
one lacks or a numeral is the cause. -/
lemma follows_source {side : Associativity} {levels most : Nat} (hlt : levels < most)
    {ts rest : List Token} {stop : Stop} (h : Rule.source side levels ts = .error stop rest) :
    Stops (Rule.source side most) [] ts stop rest := by
  rw [Rule.source_eq, Rule.bind_apply] at h
  rcases hitems : (get >>= Rule.items (Rule.item (Rule.expression side levels)
    (Rule.block side levels))) ts with ⟨vs, left⟩ | ⟨stop', left⟩ <;> rw [hitems] at h <;> cases h
  refine follows_items (k := fun found => pure (.ofItems found)) (follows_expression side hlt)
    (follows_block hlt) (fun _ => inferInstance) ⟨fun _ => ?_, nofun⟩ hitems
  rw [Rule.source_eq]
  rfl

end Pebble.Grammar

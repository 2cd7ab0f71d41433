import Mathlib.Tactic.Choose
import Pebble.Proofs.Grammar.Plan

/-!
Walks: the rules of the grammar have plans that keep to the brackets. There is one lemma for each
step and one for each rule, with the brackets that are open before it and after it.
-/

namespace Pebble

/-- A rule that is built from openers follows a plan, from `b` open brackets to `c` of them on the
level at hand. Where it stops of itself it stops with one of the stops `E`. -/
def Walks {α : Type} (E : Stop → Prop) (b c : Int) (F : Openers → Rule α) : Prop :=
  ∀ ts, ∃ p : Plan α, (∀ o, F o ts = p.run o) ∧ p.Keeps E c b ts

def Stop.kind? : Stop → Option ComplaintKind
  | complaint cause => some cause.kind
  | numeral _ => none

/-- The stops that a source makes of itself: all but those of its openers. -/
def Stop.Outer (stop : Stop) : Prop := stop.kind? ≠ some .nestingTooDeep

/-- The stops that a part of a declaration makes of itself: those for a token that begins no
declaration are not among them. -/
def Stop.Own (stop : Stop) : Prop := stop.Outer ∧ stop.kind? ≠ some .unexpectedToken

namespace Walks

variable {α β : Type} {E : Stop → Prop} {b c d m : Int}

section

variable {F : Openers → Rule α} {o o' : Openers} {x : Opening} {ts us rest : List Token}

lemma run_ok (h : Walks E b c F) (ho : o.Steady) {v : α} (hrun : F o ts = .ok v rest) :
    Leaves (c - b) ts rest := by
  obtain ⟨p, hp, hkeeps⟩ := h ts
  exact hkeeps.run_ok ho ((hp o).symm.trans hrun)

lemma run_error (h : Walks E b c F) (ho : o.Steady) {stop : Stop}
    (hrun : F o ts = .error stop rest) :
    rest <:+ ts ∧ (E stop ∨ ∃ x us, Asks F o ts x us ∧ o x us = .error stop rest) := by
  obtain ⟨p, hp, hkeeps⟩ := h ts
  simp only [asks_iff hp]
  exact hkeeps.run_error ho ((hp o).symm.trans hrun)

lemma leaves (h : Walks E b c F) (ho : o.Steady) (ha : Asks F o ts x us) :
    Leaves (x.weight - b) ts us := by
  obtain ⟨p, hp, hkeeps⟩ := h ts
  exact hkeeps.leaves ho ((asks_iff hp).1 ha)

lemma asked_ok (h : Walks E b c F) (ho : o.Steady) (ha : Asks F o ts x us) {v : α}
    (hrun : F o ts = .ok v rest) : ∃ w mid, o x us = .ok w mid ∧ rest <:+ mid := by
  obtain ⟨p, hp, hkeeps⟩ := h ts
  exact hkeeps.asked_ok ho ((asks_iff hp).1 ha) ((hp o).symm.trans hrun)

lemma congr (h : Walks E b c F) (hsame : ∀ x us, Asks F o' ts x us → o x us = o' x us) :
    F o ts = F o' ts := by
  obtain ⟨p, hp, -⟩ := h ts
  rw [hp, hp]
  exact Plan.run_congr fun x us ha => hsame x us ((asks_iff hp).2 ha)

end

/-! ### The steps -/

lemma plain {r : Rule α} (hok : ∀ ts v rest, r ts = .ok v rest → Leaves (c - b) ts rest)
    (herror : ∀ ts stop rest, r ts = .error stop rest → E stop ∧ rest <:+ ts) :
    Walks E b c fun _ => r := by
  intro ts
  refine ⟨.done (r ts), fun _ => rfl, ?_⟩
  cases hr : r ts with
  | ok v rest => exact hok ts v rest hr
  | error stop rest => exact herror ts stop rest hr

lemma pure (v : α) : Walks E b b fun _ => Pure.pure v := by
  refine plain (fun ts w rest h => ?_) nofun
  cases h
  rw [Int.sub_self]
  exact .refl _

lemma refuse {cause : Complaint} (h : E (.complaint cause)) :
    Walks E b c fun _ => (Rule.refuse cause : Rule α) := by
  refine plain nofun fun ts stop rest hr => ?_
  cases hr
  exact ⟨h, List.suffix_refl _⟩

lemma opener (x : Opening) : Walks E x.weight x.weight fun o => o x := by
  intro ts
  have hrefl : ∀ us, Leaves ((x.weight : Int) - x.weight) us us := by
    intro us
    rw [Int.sub_self]
    exact .refl us
  refine ⟨.ask x ts fun v rest => .done (.ok v rest), fun o => ?_, hrefl ts,
    fun v rest _ => hrefl rest⟩
  simp only [Plan.run]
  cases o x ts <;> rfl

lemma bind {F : Openers → Rule α} {G : α → Openers → Rule β} (hF : Walks E b m F)
    (hG : ∀ v, Walks E m c (G v)) : Walks E b c fun o => F o >>= fun v => G v o := by
  intro ts
  obtain ⟨p, hp, hkeeps⟩ := hF ts
  choose k hk using hG
  refine ⟨p.bind k, fun o => ?_, hkeeps.bind fun v rest => (hk v rest).2⟩
  dsimp only
  rw [Rule.bind_apply, Plan.run_bind, hp]
  cases p.run o with
  | ok v rest => exact (hk v rest).1 o
  | error stop rest => rfl

lemma mono {E' : Stop → Prop} {F : Openers → Rule α} (h : Walks E b c F)
    (hE : ∀ stop, E stop → E' stop) : Walks E' b c F := by
  intro ts
  obtain ⟨p, hp, hkeeps⟩ := h ts
  exact ⟨p, hp, hkeeps.mono hE⟩

lemma get {F : List Token → Openers → Rule α} (h : ∀ bound, Walks E b c (F bound)) :
    Walks E b c fun o => MonadState.get >>= fun bound => F bound o :=
  fun ts => h ts ts

/-- A token that is taken if it is one of some terminals, which add as many brackets. -/
lemma accept? {patterns : List Pattern} {cs : List Terminal} {F : Option Token → Openers → Rule α}
    (fit : Pattern.Fit patterns cs) (hcs : ∀ t ∈ cs, t.weight = d)
    (yes : ∀ t, Walks E (b + d) c (F (some t))) (no : Walks E b c (F none)) :
    Walks E b c fun o => Rule.accept? patterns >>= fun found => F found o := by
  intro ts
  dsimp only
  -- the plan is that of the branch that the next token decides on
  by_cases hclear : Clear cs ts
  · obtain ⟨p, hp, hkeeps⟩ := no ts
    refine ⟨p, fun o => ?_, hkeeps⟩
    rw [Rule.bind_ok (Rule.accept?_of_clear fit hclear), hp]
  · rcases ts with _ | ⟨t, ts⟩
    · exact absurd (clear_nil cs) hclear
    have ht : t.terminal ∈ cs := by simpa using hclear
    obtain ⟨p, hp, hkeeps⟩ := yes t ts
    refine ⟨p, fun o => ?_, hkeeps.of_leaves ?_⟩
    · rw [Rule.bind_ok (Rule.accept?_of_mem fit ht), hp]
    · rw [show b + d - b = d by omega, ← hcs _ ht]
      exact .head t ts

section

variable {pattern : Pattern} {t : Terminal} {F G : Openers → Rule α}

lemma branch (fit : Pattern.Fit [pattern] [t]) (yes : Walks E (b + t.weight) c F)
    (no : Walks E b c G) :
    Walks E b c fun o =>
      Rule.accepts pattern >>= fun found => if found = true then F o else G o := by
  simp only [Rule.accepts_bind]
  refine accept? fit (F := fun found o => if found.isSome = true then F o else G o)
    (List.forall_mem_singleton.2 rfl) (fun _ => ?_) ?_
  · simpa using yes
  · simpa using no

lemma demand {kind : ComplaintKind} (fit : Pattern.Fit [pattern] [t])
    (h : E (.complaint (.missing pattern kind))) (yes : Walks E (b + t.weight) c F) :
    Walks E b c fun o => discard (Rule.demand pattern kind) >>= fun _ => F o := by
  simp only [Rule.discard_bind, Rule.demand_bind]
  exact accept? fit (List.forall_mem_singleton.2 rfl) (fun _ => yes) (refuse h)

end

lemma after? {a : Char} {F : Openers → Rule α} (ha : (Terminal.mark a).weight = 0)
    (h : Walks E b b F) : Walks E b b fun o => Rule.after? a (F o) := by
  refine branch (Pattern.fit_mark a) ?_ (pure _)
  rw [ha, Int.add_zero]
  exact bind h fun _ => pure _

/-! The steps that stop of themselves. -/

section

variable {F : Openers → Rule α} {v : α}

lemma demandWord {word : Keyword} (yes : Walks Stop.Own (b + (Terminal.word word).weight) c F) :
    Walks Stop.Own b c fun o => Rule.demandWord word >>= fun _ => F o :=
  demand (Pattern.fit_keyword word) ⟨nofun, nofun⟩ yes

lemma closing : Walks Stop.Own b (b - 1) fun _ => Rule.closing >>= fun _ => Pure.pure v :=
  demandWord (pure v)

lemma semicolon : Walks Stop.Own b b fun _ => Rule.semicolon >>= fun _ => Pure.pure v := by
  simp only [Rule.semicolon_bind]
  refine accept? (Pattern.fit_mark ';') (List.forall_mem_singleton.2 rfl) (fun _ => ?_)
    (refuse ⟨nofun, nofun⟩)
  rw [show Terminal.weight (.mark ';') = 0 from rfl, Int.add_zero]
  exact pure v

end

lemma name : Walks Stop.Own b b fun _ => Rule.name := by
  have hsplit : ∀ ts, (∃ t us, ts = t :: us ∧ t.terminal = .name) ∨ Clear [.name] ts := by
    rintro (_ | ⟨t, us⟩)
    · exact .inr (clear_nil _)
    · by_cases ht : t.terminal = .name
      · exact .inl ⟨t, us, rfl, ht⟩
      · exact .inr (by simpa using ht)
  refine plain (fun ts v rest hr => ?_) fun ts stop rest hr => ?_ <;>
    rcases hsplit ts with ⟨t, us, rfl, ht⟩ | hclear
  · rw [Rule.name_of_eq ht] at hr
    cases hr
    rw [Int.sub_self, show (0 : Int) = t.terminal.weight by rw [ht]; rfl]
    exact .head t rest
  · rw [Rule.name_of_clear hclear] at hr
    cases hr
  · rw [Rule.name_of_eq ht] at hr
    cases hr
  · rw [Rule.name_of_clear hclear] at hr
    cases hr
    exact ⟨⟨nofun, nofun⟩, List.suffix_refl _⟩

end Walks

namespace Rule

variable {α : Type} {E : Stop → Prop} {b c : Int}

/-! ### Expressions -/

lemma walks_others {F : Openers → Rule α} (h : Walks E b b F) (bound : List Token) :
    Walks E b b fun o => others (F o) bound := by
  induction bound with
  | nil => exact .pure []
  | cons _ bound ih =>
    refine .branch (Pattern.fit_mark ',') ?_ (.pure [])
    rw [show Terminal.weight (.mark ',') = 0 from rfl, Int.add_zero]
    exact .bind h fun _ => .bind ih fun _ => .pure _

lemma walks_commaSeparated {F : Openers → Rule α} (h : Walks E b b F) :
    Walks E b b fun o => commaSeparated (F o) :=
  .bind h fun _ => .get fun bound => .bind (walks_others h bound) fun _ => .pure _

lemma walks_arguments : Walks Stop.Own 0 (-1) fun o => arguments o.expression := by
  refine .branch (Pattern.fit_mark ')') (.pure []) ?_
  refine .bind (walks_commaSeparated (.opener .expression)) fun values => ?_
  exact .branch (Pattern.fit_mark ')') (.pure values) (.refuse ⟨nofun, nofun⟩)

lemma walks_named (name : Text) :
    Walks Stop.Own (-1) (-1) fun o => named o.expression name :=
  .branch (Pattern.fit_mark '(') (.bind walks_arguments fun _ => .pure _) (.pure _)

lemma walks_grouped : Walks Stop.Own 0 (-1) fun o => grouped o.expression :=
  .bind (.opener .expression) fun _ => .demand (Pattern.fit_mark ')') ⟨nofun, nofun⟩ (.pure _)

lemma weight_of_reading {t : Token} {out : Except Numeral.Fault Value}
    (h : t.reading? = some out) : t.terminal.weight = 0 := by
  have hc : t.terminal.isConstant := by
    rw [← Token.isSome_reading?, h]
    rfl
  cases hterminal : t.terminal with
  | word w =>
    rw [hterminal] at hc
    cases w <;> simp [Terminal.isConstant] at hc <;> rfl
  | operator literal => simp [hterminal, Terminal.isConstant] at hc
  | _ => rfl

lemma walks_primary : Walks Stop.Own (-1) (-1) fun o => primary o.expression := by
  rintro (_ | ⟨t, ts⟩)
  · exact ⟨.done (.error (.complaint .expectedExpression) []), fun _ => rfl, ⟨nofun, nofun⟩,
      List.suffix_refl _⟩
  -- A primary expression that goes on after its first token.
  have hfirst : ∀ (b : Int) (F : Openers → Rule Expr), Walks Stop.Own b (-1) F →
      t.terminal.weight = b + 1 → (∀ o : Openers, primary o.expression (t :: ts) = F o ts) →
      ∃ p : Plan Expr, (∀ o, primary o.expression (t :: ts) = p.run o) ∧
        p.Keeps Stop.Own (-1) (-1) (t :: ts) := by
    intro b F hF hweight heq
    obtain ⟨p, hp, hkeeps⟩ := hF ts
    refine ⟨p, fun o => (heq o).trans (hp o), hkeeps.of_leaves ?_⟩
    rw [Int.sub_neg, ← hweight]
    exact .head t ts
  -- a constant is taken at once, a name and a parenthesis go on, anything else is refused
  cases hread : t.reading? with
  | some out =>
    have hweight := weight_of_reading hread
    have hleaves : Leaves 0 (t :: ts) ts := hweight ▸ .head t ts
    cases out with
    | ok v =>
      refine ⟨.done (.ok (.literal v) ts), fun o => ?_, hleaves⟩
      simp only [primary_cons, hread]
      rfl
    | error fault =>
      refine ⟨.done (.error (.numeral fault) ts), fun o => ?_, ⟨nofun, nofun⟩, hleaves.suffix⟩
      simp only [primary_cons, hread]
      rfl
  | none =>
    by_cases hname : t.terminal = .name
    · refine hfirst (-1) _ (walks_named t.literal) (by rw [hname]; rfl) fun o => ?_
      rw [primary_cons, hread]
      exact if_pos hname
    by_cases hgroup : t.terminal = .mark '('
    · exact hfirst 0 _ walks_grouped (by rw [hgroup]; rfl) fun o => primary_of_group hgroup
    · refine ⟨.done (.error (.complaint .expectedExpression) (t :: ts)), fun o => ?_,
        ⟨nofun, nofun⟩, List.suffix_refl _⟩
      simp only [primary_cons, hread, if_neg hname, if_neg hgroup]
      rfl

lemma walks_members (receiver : Expr) (bound : List Token) :
    Walks Stop.Own (-1) (-1) fun o => members o.expression receiver bound := by
  induction bound generalizing receiver with
  | nil => exact .pure receiver
  | cons _ bound ih =>
    refine .branch (Pattern.fit_mark '.') (.bind .name fun name => ?_) (.pure receiver)
    exact .branch (Pattern.fit_mark '(') (.bind walks_arguments fun _ => ih _) (ih _)

lemma walks_secondary : Walks Stop.Own (-1) (-1) fun o => secondary o.expression :=
  .bind walks_primary fun receiver => .get fun bound => walks_members receiver bound

section

variable {l : Level} {F : Openers → Rule Expr}

lemma walks_links (h : Walks E b b F) (bound : List Token) :
    Walks E b b fun o => links (l.operators.map .operator) (F o) bound := by
  have hweight : ∀ c ∈ l.operators.map Terminal.operator, c.weight = 0 := by
    cases l <;> decide
  induction bound with
  | nil => exact .pure []
  | cons _ bound ih =>
    refine .accept? (Pattern.fit_operators _) hweight (fun operator => ?_) (.pure [])
    rw [Int.add_zero]
    exact .bind h fun _ => .bind ih fun _ => .pure _

lemma walks_level (side : Associativity) (h : Walks E b b F) :
    Walks E b b fun o => level side l (F o) :=
  .bind h fun _ => .get fun bound => .bind (walks_links h bound) fun _ => .pure _

end

lemma walks_logical (side : Associativity) :
    Walks Stop.Own (-1) (-1) fun o => logical side o.expression :=
  walks_level side <| walks_level side <| walks_level side <| walks_level side walks_secondary

/-! ### Statements -/

lemma walks_declaration : Walks Stop.Own 0 0 fun o => declaration o.expression :=
  .bind .name fun _ => .bind (.after? rfl (.opener .expression)) fun _ => .semicolon

lemma walks_returning : Walks Stop.Own 0 0 fun o => returning o.expression :=
  .bind (.opener .expression) fun _ => .semicolon

lemma walks_assignment : Walks Stop.Own 0 0 fun o => assignment o.expression := by
  refine .bind (.opener .expression) fun receiver => ?_
  refine .bind (.after? rfl (.opener .expression)) fun found => ?_
  cases found with
  | none => exact .semicolon
  | some value => exact .semicolon

lemma walks_whileDo : Walks Stop.Own 0 0 fun o => whileDo o.expression o.block :=
  .bind (.opener .expression) fun _ => .demandWord <| .bind (.opener (.block _)) fun _ => .closing

lemma walks_forIn : Walks Stop.Own 0 0 fun o => forIn o.expression o.block :=
  .bind .name fun _ => .demandWord <| .bind (.opener .expression) fun _ => .demandWord <|
    .bind (.opener (.block _)) fun _ => .closing

lemma walks_ifElse : Walks Stop.Own 0 0 fun o => ifElse o.expression o.block := by
  simp only [ifElse_eq]
  refine .bind (.opener .expression) fun _ => .demandWord <| .bind (.opener (.block _)) fun _ => ?_
  refine .branch (Pattern.fit_keyword .ELSE) ?_ .closing
  exact .bind (.opener (.block _)) fun _ => .closing

lemma walks_statementOf :
    Walks Stop.Own 0 0 fun o => statementOf o.expression o.block :=
  .branch (Pattern.fit_keyword .LET) walks_declaration <|
    .branch (Pattern.fit_keyword .IF) walks_ifElse <|
      .branch (Pattern.fit_keyword .FOR) walks_forIn <|
        .branch (Pattern.fit_keyword .WHILE) walks_whileDo <|
          .branch (Pattern.fit_keyword .RETURN) walks_returning walks_assignment

lemma walks_statements (terminators : List Pattern) (bound : List Token) :
    Walks Stop.Own 0 0 fun o =>
      statements terminators (statementOf o.expression o.block) bound := by
  induction bound with
  | nil => exact .refuse ⟨nofun, nofun⟩
  | cons b bound ih =>
    intro ts
    simp only [statements_cons]
    split_ifs
    · exact Walks.pure ([] : List Stmt) ts
    · exact Walks.refuse (α := List Stmt) ⟨nofun, nofun⟩ ts
    · exact Walks.bind walks_statementOf (fun _ => .bind ih fun _ => .pure _) ts

lemma walks_body (side : Associativity) (x : Opening) :
    Walks Stop.Own (x.weight - 1) (x.weight - 1) fun o => o.body side x := by
  cases x with
  | expression => exact walks_logical side
  | block terminators => exact .get fun bound => walks_statements terminators bound

/-! ### Sources -/

lemma walks_field : Walks Stop.Own 0 0 fun o => field o.expression :=
  .bind .name fun _ => .bind (.after? rfl .name) fun _ =>
    .bind (.after? rfl (.opener .expression)) fun _ => .semicolon

lemma walks_parameters : Walks Stop.Own 1 0 fun _ => parameters := by
  refine .branch (Pattern.fit_mark ')') (.pure []) ?_
  refine .bind (walks_commaSeparated .name) fun names => ?_
  exact .demand (Pattern.fit_mark ')') ⟨nofun, nofun⟩ (.pure names)

lemma walks_method : Walks Stop.Own 0 0 fun o => method o.block :=
  .bind .name fun _ => .demand (Pattern.fit_mark '(') ⟨nofun, nofun⟩ <|
    .bind walks_parameters fun _ => .demandWord <| .bind (.opener (.block _)) fun _ => .closing

lemma walks_item : Walks Stop.Outer 0 0 fun o => item o.expression o.block := by
  refine .branch (Pattern.fit_keyword .LET) ?_ (.branch (Pattern.fit_keyword .DEF) ?_ ?_)
  · exact .bind (walks_field.mono fun _ h => h.1) fun _ => .pure _
  · exact .bind (walks_method.mono fun _ h => h.1) fun _ => .pure _
  · refine .plain (fun ts v rest h => ?_) fun ts stop rest h => ?_ <;>
      rcases ts with _ | ⟨t, ts⟩ <;> cases h <;> exact ⟨nofun, List.suffix_refl _⟩

lemma walks_items (bound : List Token) :
    Walks Stop.Outer 0 0 fun o => items (item o.expression o.block) bound := by
  induction bound with
  | nil => exact .pure []
  | cons b bound ih =>
    intro ts
    simp only [items_cons]
    split_ifs
    · exact Walks.pure ([] : List Item) ts
    · exact Walks.bind walks_item (fun _ => .bind ih fun _ => .pure _) ts

end Rule

end Pebble

import Pebble.Proofs.Grammar.Comparison
import Pebble.Proofs.Grammar.Concatenation
import Pebble.Proofs.Grammar.ShortChain
import Pebble.Proofs.Tree.Flat

/-!
The two sides: whether chains fold to the right or to the left, the rules take the same tokens and
stop with the same complaint. What they read has the same flat tree, and is the same tree just if
the tokens are derived with short chains.
-/

namespace Pebble

/-! ### Runs to both sides, compared -/

/-- Two expressions are twins if they have the same flat tree, the one with chains folded to the
right and the other one to the left, and both bind at least so tightly. -/
structure Expr.Twins (rank : Nat) (e e' : Expr) : Prop where
  flat : e.flatten .right = e'.flatten .left
  rank_le : rank ≤ e.rank
  rank_le' : rank ≤ e'.rank

section

variable {level : Level} {e e' : Expr} {es es' : List Expr} {x x' : Option Expr}
  {body body' : List Stmt} {links links' : List (Text × Expr)}

lemma flattenAll_twins (h : List.Forall₂ (Expr.Twins 0) es es') :
    Expr.flattenAll .right es = Expr.flattenAll .left es' := by
  rw [Expr.flattenAll_eq_map, Expr.flattenAll_eq_map]
  exact map_eq_map_of_forall₂ (h.imp fun _ _ he => he.flat)

lemma flattenOption_twins (h : Option.Rel (Expr.Twins 0) x x') :
    Expr.flattenOption .right x = Expr.flattenOption .left x' := by
  cases h with
  | some he => exact congrArg (fun f => [f]) he.flat
  | none => rfl

lemma flattenAll_body (h : List.Forall₂ (fun v v' => v.flatten .right = v'.flatten .left) body
    body') : Stmt.flattenAll .right body = Stmt.flattenAll .left body' := by
  rw [Stmt.flattenAll_eq_map, Stmt.flattenAll_eq_map, map_eq_map_of_forall₂ h]

/-- The operators of both chains are those of the level, and the operands of the first one bind
tighter. -/
lemma forall_links
    (h : List.Forall₂ (LinksAlike level (Expr.Twins (level.rank + 1))) links links') :
    (∀ link ∈ links, link.1 ∈ level.operators ∧ level.rank < link.2.rank) ∧
      ∀ link ∈ links', link.1 ∈ level.operators := by
  induction h with
  | nil => exact ⟨nofun, nofun⟩
  | cons hlink _ ih =>
    exact ⟨List.forall_mem_cons.mpr ⟨⟨hlink.mem, hlink.operand.rank_le⟩, ih.1⟩,
      List.forall_mem_cons.mpr ⟨hlink.operator ▸ hlink.mem, ih.2⟩⟩

lemma twins_fold (h : Expr.Twins (level.rank + 1) e e')
    (hlinks : List.Forall₂ (LinksAlike level (Expr.Twins (level.rank + 1))) links links') :
    Expr.Twins level.rank (Associativity.fold .right .binary e links)
      (Associativity.fold .left .binary e' links') := by
  obtain ⟨hfirst, hops'⟩ := forall_links hlinks
  have hops : ∀ link ∈ links, link.1 ∈ level.operators := fun link hl => (hfirst link hl).1
  have hsame : links.map Prod.fst = links'.map Prod.fst :=
    map_eq_map_of_forall₂ (hlinks.imp fun _ _ hlink => hlink.operator)
  have hoperands : flattenLinks .right links = flattenLinks .left links' :=
    map_eq_map_of_forall₂ (hlinks.imp fun _ _ hlink => hlink.operand.flat)
  exact ⟨flatten_fold h.flat h.rank_le h.rank_le' hops hops' (fun link hl => (hfirst link hl).2)
    hsame hoperands, le_rank_fold .right hops h.rank_le, le_rank_fold .left hops' h.rank_le'⟩

end

/-- Runs on the same tokens, to the right and to the left, compared by the flat trees of what they
read. -/
def Comparison.sides : Comparison where
  token := Eq
  complaint := Eq
  name := Eq
  value := Eq
  terminal h := .inl (congrArg _ h)
  named h _ := congrArg _ h
  reading {t _} h := by
    subst h
    rcases t.reading? with _ | fault | v
    · exact .none
    · exact .fault fault
    · exact .value rfl
  same _ := rfl
  unexpected h := by rw [h]
  side := .right
  side' := .left
  expr := Expr.Twins
  stmt v v' := v.flatten .right = v'.flatten .left
  field f f' := f.flatten .right = f'.flatten .left
  method m m' := m.flatten .right = m'.flatten .left
  source s s' := s.flatten .right = s'.flatten .left
  literal h := ⟨by simp [h], le_rfl, le_rfl⟩
  group h := ⟨by simp [h.flat], le_rfl, le_rfl⟩
  «variable» h := ⟨by simp [h], le_rfl, le_rfl⟩
  member h hn := ⟨by simp [h.flat, hn], le_rfl, le_rfl⟩
  call hn hes := ⟨by simp [hn, flattenAll_twins hes], le_rfl, le_rfl⟩
  invoke h hn hes := ⟨by simp [h.flat, hn, flattenAll_twins hes], le_rfl, le_rfl⟩
  fold := twins_fold
  expression h := by simp [h.flat]
  assignment h h' := by simp [h.flat, h'.flat]
  declaration hn hx := by simp [hn, flattenOption_twins hx]
  ifElse h hb ho := by simp [h.flat, flattenAll_body hb, flattenAll_body ho]
  forIn hn h hb := by simp [hn, h.flat, flattenAll_body hb]
  whileDo h hb := by simp [h.flat, flattenAll_body hb]
  returning h := by simp [h.flat]
  ofField hn hty hx := by
    simp [Field.flatten, hn, eq_of_rel hty, flattenOption_twins hx]
  ofMethod hn hps hb := by
    rw [List.forall₂_eq_eq_eq] at hps
    simp [Method.flatten, hn, hps, flattenAll_body hb]
  empty := rfl
  addField hf hs := by
    simp only [Source.flatten, Flat.node.injEq, List.cons.injEq, true_and] at hs
    simp [Source.flatten, hf, hs]
  addMethod hm hs := by
    simp only [Source.flatten, Flat.node.injEq, List.cons.injEq, true_and] at hs
    simp [Source.flatten, hm, hs]

/-! ### Trees that are the same to both sides -/

namespace Grammar

variable {α : Type} {side : Associativity} {levels : Nat}

/-- A rule takes the phrases of a symbol: what it reads is derived, and what is derived it reads, if
nothing comes after it. -/
structure Takes (rule : Rule α) (p : Phrase α) : Prop where
  sound {ts rest : List Token} {v : α} : rule ts = .ok v rest → ∃ used, ts = used ++ rest ∧ p used v
  complete {ts : List Token} {v : α} : p ts v → rule ts = .ok v []

lemma takes_expression (side : Associativity) (levels : Nat) :
    Takes (Rule.expression side levels) (Expression ReadsAs side levels) where
  sound := (reads_expression constants_readsAs levels).ok fun _ _ => trivial
  complete {ts v} h := by
    simpa using (completes_readsAs side levels ts v [] h (clear_nil _)).eq_next

lemma takes_statement (side : Associativity) (levels : Nat) :
    Takes (Rule.statement side levels)
      (Statement (Expression ReadsAs side levels) (Block ReadsAs side levels)) where
  sound := (reads_statement constants_readsAs levels).ok fun _ _ => trivial
  complete {ts v} h := by
    simpa using (completes_statement side levels ts v [] h (clear_nil _)).eq_next

lemma takes_source (side : Associativity) (levels : Nat) :
    Takes (Rule.source side levels) (Program ReadsAs side levels) where
  sound := (reads_source constants_readsAs side levels).ok fun _ _ => trivial
  complete h := (completes_source side readable_readsAs constants_readsAs.isConstant (fun _ => rfl)
    le_rfl h).eq_next

/-- Two rules that take the same tokens read the same value just if these are derived by a symbol
with which both agree. -/
lemma eq_iff_derives {right left : Rule α} {p q r : Phrase α} (hp : Takes right p)
    (hq : Takes left q) (hrp : r ≤ p) (hrq : r ≤ q) (hwithin : Within p (Yields q) r)
    {ts rest : List Token} {v v' : α} (hv : right ts = .ok v rest) (hv' : left ts = .ok v' rest) :
    ∃ used, ts = used ++ rest ∧ (v = v' ↔ Derives r used) := by
  obtain ⟨used, rfl, hused⟩ := hp.sound hv
  obtain ⟨used', heq, hused'⟩ := hq.sound hv'
  obtain rfl := List.append_cancel_right heq
  refine ⟨used, rfl, ?_, ?_⟩
  · rintro rfl
    exact ⟨v, hwithin _ _ hused ⟨_, hused'⟩⟩
  · -- The rules find no other value in the tokens than the one that is derived.
    rintro ⟨w, hw⟩
    have hright := (hp.complete hused).symm.trans (hp.complete (hrp _ _ hw))
    have hleft := (hq.complete hused').symm.trans (hq.complete (hrq _ _ hw))
    cases hright
    cases hleft
    rfl

end Grammar

/-! ### Runs -/

def Session.taken (s : Session) : List Token := s.cursor.items.take s.cursor.position.toNat

lemma taken_leaving (side : Associativity) (used rest : List Token) :
    ((Session.start side (used ++ rest)).leaving rest).taken = used := by
  rw [Session.taken, Grammar.position_leaving]
  simp [Session.leaving, Session.start, Cursor.advance]

/-- Two runs from the same tokens, the one with chains folded to the right and the other one to the
left, agree if they come to the same position with the same failure or with values that have the
same flat tree, and are the same just if the tokens taken are derived with short chains. -/
def RunsAgree {α : Type} (flatten : Associativity → α → Flat) (short : Grammar.Phrase α)
    (right left : Except Failure α × Session) : Prop :=
  right.2.cursor = left.2.cursor ∧
    match right.1, left.1 with
    | .ok v, .ok v' =>
      flatten .right v = flatten .left v' ∧ (v = v' ↔ Grammar.Derives short right.2.taken)
    | .error failure, .error failure' => failure = failure'
    | _, _ => False

lemma runsAgree {α : Type} {flatten : Associativity → α → Flat} {right left : Rule α}
    {p q short : Grammar.Phrase α} {R : α → α → Prop}
    (hagree : Rule.Agree Comparison.sides.toTokenComparison R right left)
    (hflat : ∀ v v', R v v' → flatten .right v = flatten .left v')
    (hp : Grammar.Takes right p) (hq : Grammar.Takes left q) (hsp : short ≤ p) (hsq : short ≤ q)
    (hwithin : Grammar.Within p (Grammar.Yields q) short) (ts : List Token) :
    RunsAgree flatten short ((Session.start .right ts).run right)
      ((Session.start .left ts).run left) := by
  have hsame := fun {rest rest' : List Token} (h : Comparison.sides.Tokens rest rest') =>
    (congrFun₂ List.forall₂_eq_eq_eq rest rest').mp h
  have halike := hagree ts ts (List.forall₂_same.mpr fun _ _ => rfl)
  rw [Grammar.run_start, Grammar.run_start]
  -- Both succeed, both stop, or the two differ in that, which `halike` excludes.
  rcases hr : right ts with ⟨v, rest⟩ | ⟨stop, rest⟩ <;>
    rcases hl : left ts with ⟨v', rest'⟩ | ⟨stop', rest'⟩ <;> rw [hr, hl] at halike <;>
    cases halike
  · next hv hrest =>
    obtain rfl := hsame hrest
    obtain ⟨used, rfl, hiff⟩ := Grammar.eq_iff_derives hp hq hsp hsq hwithin hr hl
    refine ⟨rfl, hflat _ _ hv, ?_⟩
    rwa [taken_leaving]
  · next hcause hrest =>
    obtain rfl := hsame hrest
    obtain rfl := hcause
    exact ⟨rfl, rfl⟩
  · next hrest =>
    obtain rfl := hsame hrest
    exact ⟨rfl, rfl⟩

open Grammar in
/-- **The two sides agree**: whether chains fold to the right or to the left, sources, statements
and expressions take the same tokens, or fail alike at the same place. What is read has the same
flat tree, and is the same just if the tokens taken are derived without any chain of more than one
operator. -/
theorem runsAgree_sides (levels : Nat) (ts : List Token) :
    RunsAgree Source.flatten (ShortProgram ReadsAs levels)
        ((Session.start .right ts).run (Rule.source .right levels))
        ((Session.start .left ts).run (Rule.source .left levels)) ∧
      RunsAgree Stmt.flatten (ShortStatement ReadsAs levels)
        ((Session.start .right ts).run (Rule.statement .right levels))
        ((Session.start .left ts).run (Rule.statement .left levels)) ∧
      RunsAgree Expr.flatten (ShortExpression ReadsAs levels)
        ((Session.start .right ts).run (Rule.expression .right levels))
        ((Session.start .left ts).run (Rule.expression .left levels)) := by
  refine ⟨?_, ?_, ?_⟩
  · exact runsAgree (Rule.agree_source .sides levels) (fun _ _ h => h)
      (takes_source .right levels) (takes_source .left levels) (shortProgram_le _ _ _)
      (shortProgram_le _ _ _) (within_program _ _) ts
  · exact runsAgree (Rule.agree_statement .sides levels) (fun _ _ h => h)
      (takes_statement .right levels) (takes_statement .left levels) (shortStatement_le _ _ _)
      (shortStatement_le _ _ _) (within_shortStatement _ _) ts
  · exact runsAgree (Rule.agree_expression .sides levels) (fun _ _ h => h.flat)
      (takes_expression .right levels) (takes_expression .left levels) (shortExpression_le _ _ _)
      (shortExpression_le _ _ _) (within_expression _ _) ts

end Pebble

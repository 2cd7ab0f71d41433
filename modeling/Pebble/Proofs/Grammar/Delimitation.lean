import Pebble.Proofs.Grammar.Concatenation

/-!
Delimitation: statements end with their last token, and an expression ends before any token with
which it cannot go on. What is read of them depends neither on what stands before them nor on what
comes after them.
-/

namespace Pebble

namespace Grammar

variable {α β γ : Type} {r : Rule α} {follow : List Terminal} {side : Associativity}
  {depth : Nat} {pre mid post : List Token}

/-! ### Rules that are delimited -/

/-- A rule takes the same tokens and gives the same value whatever comes after these, if it does
not begin with one of some terminals. -/
def Delimited (r : Rule α) (follow : List Terminal) : Prop :=
  ∀ ts v rest, r ts = .ok v rest →
    ∃ used, ts = used ++ rest ∧ ∀ rest', Clear follow rest' → r (used ++ rest') = .ok v rest'

namespace Delimited

/-- A rule that takes the phrases of a symbol, and all of them, is delimited as they are. -/
lemma of_reads {p : Phrase α} {q : Phrase γ} (hreads : Reads (fun _ => True) [] r p q)
    (hcompletes : Completes True r p follow) : Delimited r follow := by
  intro ts v rest h
  obtain ⟨used, rfl, hused⟩ := hreads.ok (fun _ _ => trivial) h
  exact ⟨used, rfl, fun rest' hclear => (hcompletes used v rest' hused hclear).eq_next⟩

lemma map (h : Delimited r follow) (f : α → β) : Delimited (f <$> r) follow := by
  intro ts w rest hw
  rw [Rule.map_apply] at hw
  rcases hr : r ts with ⟨v, mid⟩ | ⟨stop, mid⟩ <;> rw [hr] at hw <;> cases hw
  obtain ⟨used, hused, hreplay⟩ := h ts v rest hr
  exact ⟨used, hused, fun rest' hclear => by rw [Rule.map_apply, hreplay rest' hclear]⟩

/-- What a rule reads as a whole it reads also before other tokens. -/
lemma append (h : Delimited r follow) {ts rest : List Token} {v : α} (hv : r ts = .ok v [])
    (hclear : Clear follow rest) : r (ts ++ rest) = .ok v rest := by
  obtain ⟨used, rfl, hreplay⟩ := h ts v [] hv
  rw [List.append_nil]
  exact hreplay rest hclear

end Delimited

lemma delimited_expression (side : Associativity) (levels : Nat) :
    Delimited (Rule.expression side levels) (Expression.next true) :=
  .of_reads (reads_expression constants_readsAs levels) (completes_readsAs side levels)

lemma delimited_statement (side : Associativity) (levels : Nat) :
    Delimited (Rule.statement side levels) [] :=
  .of_reads (reads_statement constants_readsAs levels) (completes_statement side levels)

/-! ### Sessions between other tokens -/

/-- Whether some tokens, all of them, are read as a construct with so many levels open. -/
def Whole (side : Associativity) (depth : Nat) (construct : Construct) (tokens : List Token)
    (tree : Record) : Prop :=
  ∃ s, Session.read ⟨⟨tokens, 0⟩, side, depth⟩ construct = (.ok tree, s) ∧
    s.cursor.position = tokens.length

variable {construct : Construct} {tree : Record}

lemma whole_iff :
    Whole side depth construct mid tree ↔
      construct.rule side (maxNesting - depth) mid = .ok tree [] := by
  have hrun := @Session.run_eq side mid 0 depth _ (Nat.zero_le _)
    (construct.rule side (maxNesting - depth)) _
  have hsuffix := (Rule.Orderly.suffix (construct.rule side (maxNesting - depth)) mid).length_le
  rw [List.drop_zero] at hrun
  constructor
  · rintro ⟨s, hread, hposition⟩
    have heq := hrun.symm.trans hread
    rcases hrule : construct.rule side (maxNesting - depth) mid with ⟨v, rest⟩ | ⟨stop, rest⟩ <;>
      rw [hrule] at heq hsuffix <;> cases heq
    -- Everything was taken, so nothing can be left.
    have hempty : rest.length = 0 := by
      rw [Rule.left_ok] at hsuffix
      dsimp only at hposition
      omega
    rw [List.length_eq_zero_iff.mp hempty]
  · intro hrule
    rw [hrule] at hrun
    exact ⟨_, hrun, rfl⟩

/-- What is read as a whole is read in the same way between other tokens. -/
lemma Delimited.read_between
    (h : Delimited (construct.rule side (maxNesting - depth)) follow)
    (hwhole : Whole side depth construct mid tree) (pre : List Token) (hclear : Clear follow post) :
    Session.read ⟨⟨pre ++ mid ++ post, pre.length⟩, side, depth⟩ construct =
      (.ok tree, ⟨⟨pre ++ mid ++ post, pre.length + mid.length⟩, side, depth⟩) := by
  have hrun := @Session.run_eq side (pre ++ mid ++ post) pre.length depth _ (by simp)
    (construct.rule side (maxNesting - depth)) _
  rw [List.append_assoc, List.drop_left, h.append (whole_iff.mp hwhole) hclear,
    ← List.append_assoc] at hrun
  have hposition : ((pre ++ mid ++ post).length - post.length : Nat) =
      (pre.length + mid.length : Int) := by
    simp only [List.length_append]
    omega
  dsimp only at hrun
  rwa [hposition] at hrun

/-- The operators with which an expression may go on: a point, an opening parenthesis and those
between two operands. -/
def Expression.operators : List Text :=
  ['('] :: ['.'] :: [Level.multiplicative, .additive, .equality, .logical].flatMap Level.operators

lemma Expression.next_eq : Expression.next true = Expression.operators.map .operator := rfl

lemma clear_next_iff {ts : List Token} :
    Clear (Expression.next true) ts ↔
      ∀ t ∈ ts.head?, t.kind = .operator → t.literal ∉ Expression.operators := by
  refine forall₂_congr fun t _ => ?_
  have haccepts : ∀ literal, .operator literal = t.terminal ↔
      t.kind = .operator ∧ t.literal = literal := by
    intro literal
    rw [eq_comm, ← Pattern.accepts_operator]
    simp [Pattern.accepts]
  rw [Expression.next_eq, List.mem_map]
  simp only [haccepts]
  constructor
  · exact fun h hkind hmem => h ⟨_, hmem, hkind, rfl⟩
  · rintro h ⟨_, hmem, hkind, rfl⟩
    exact h hkind hmem

end Grammar

open Grammar in
/-- **Statements are delimited by themselves.** A statement that is read as a whole is read in the
same way between any other tokens, so that it is the beginning of no other statement; and so is an
expression, unless an operator with which it may go on comes right after it. -/
theorem statements_delimited (side : Associativity) (depth : Nat) :
    (∀ pre mid post tree, Whole side depth .statement mid tree →
      Session.read ⟨⟨pre ++ mid ++ post, pre.length⟩, side, depth⟩ .statement =
        (.ok tree, ⟨⟨pre ++ mid ++ post, pre.length + mid.length⟩, side, depth⟩)) ∧
    (∀ mid more tree tree', Whole side depth .statement mid tree →
      Whole side depth .statement (mid ++ more) tree' → more = []) ∧
    ∀ pre mid post tree,
      (∀ t ∈ post.head?, t.kind = .operator → t.literal ∉ Expression.operators) →
      Whole side depth .expression mid tree →
      Session.read ⟨⟨pre ++ mid ++ post, pre.length⟩, side, depth⟩ .expression =
        (.ok tree, ⟨⟨pre ++ mid ++ post, pre.length + mid.length⟩, side, depth⟩) := by
  have hstatement : Delimited (Construct.statement.rule side (maxNesting - depth)) [] :=
    (delimited_statement side _).map _
  have hexpression :
      Delimited (Construct.expression.rule side (maxNesting - depth)) (Expression.next true) :=
    (delimited_expression side _).map _
  refine ⟨fun pre mid post tree hmid => ?_, fun mid more tree tree' hmid hmore => ?_,
    fun pre mid post tree hpost hmid => ?_⟩
  · exact hstatement.read_between hmid pre (by simp [Clear])
  · -- Read before `more`, the statement leaves `more`; read as a whole, it leaves nothing.
    have hshort := hstatement.append (whole_iff.mp hmid) (show Clear [] more by simp [Clear])
    have hlong := (whole_iff.mp hmore).symm.trans hshort
    exact ((EStateM.Result.ok.inj hlong).2).symm
  · exact hexpression.read_between hmid pre (clear_next_iff.mpr hpost)

open Grammar in
/-- A call as a statement, behind a keyword and before an operator. -/
theorem statements_delimited_call :
    let call : List Token :=
      [⟨.identifier, ['f'], 3⟩, ⟨.operator, ['('], 4⟩, ⟨.operator, [')'], 5⟩,
        ⟨.operator, [';'], 6⟩]
    let tokens : List Token := [⟨.identifier, ['D', 'O'], 0⟩] ++ call ++ [⟨.operator, ['*'], 8⟩]
    let tree : Record := (Stmt.expression (.call ['f'] [])).record
    Whole .left 1 .statement call tree ∧
      Session.read ⟨⟨tokens, 1⟩, .left, 1⟩ .statement = (.ok tree, ⟨⟨tokens, 5⟩, .left, 1⟩) := by
  intro call tokens tree
  have hcall : Whole .left 1 .statement call tree := ⟨_, rfl, rfl⟩
  refine ⟨hcall, ?_⟩
  exact (statements_delimited .left 1).1 [⟨.identifier, ['D', 'O'], 0⟩] call
    [⟨.operator, ['*'], 8⟩] tree hcall

end Pebble

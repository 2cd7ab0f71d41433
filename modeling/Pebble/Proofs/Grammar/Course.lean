import Pebble.Proofs.Grammar.Likeness
import Pebble.Proofs.Grammar.Place

/-!
Courses: how a run goes depends on the classes of the tokens alone. Names, the values of constants
and offsets end up in what is read and in what is reported, but decide nothing.
-/

namespace Pebble

/-- Two tokens of one class: the same keyword in any case, the same operator, two names, or two
constants that each denote a value, be it by a keyword, by a numeral or by a text. -/
inductive Token.SameClass (t t' : Token) : Prop
  | keyword (word : Keyword) : word.constant? = none → t.keyword? = some word →
    t'.keyword? = some word → SameClass t t'
  | operator : t.kind = .operator → t'.kind = .operator → t.literal = t'.literal → SameClass t t'
  | name : t.isName → t'.isName → SameClass t t'
  | constant {v v' : Value} : t.Denotes v → t'.Denotes v' → SameClass t t'

def Relabelling.erased : Relabelling := ⟨fun _ => [], fun _ => .nil⟩

/-- Two runs come to the same position, with values that become equal when names and values of
literals are erased, or with reports of one kind of complaint. -/
def SameCourse {α : Type} (erase : α → α) (run run' : Except Failure α × Session) : Prop :=
  run.2.cursor.position = run'.2.cursor.position ∧
    match run.1, run'.1 with
    | .ok v, .ok v' => erase v = erase v'
    | .error (.report report), .error (.report report') =>
      ∃ kind, report.kind = .complaint kind ∧ report'.kind = .complaint kind
    | _, _ => False

namespace Token.SameClass

variable {t t' : Token}

lemma cases_terminal (h : t.SameClass t') :
    (t.terminal = t'.terminal ∧ t.terminal.isConstant = false) ∨
      ∃ v v', t.Denotes v ∧ t'.Denotes v' := by
  cases h with
  | keyword word hword ht ht' =>
    rw [keyword?_eq_some_iff] at ht ht'
    refine .inl ⟨ht.trans ht'.symm, ?_⟩
    rw [ht]
    cases word <;> simp [Keyword.constant?, Terminal.isConstant] at hword ⊢
  | operator hkind hkind' hliteral =>
    have hterminal : t.terminal = .operator t.literal := by rw [terminal, hkind]
    have hterminal' : t'.terminal = .operator t'.literal := by rw [terminal, hkind']
    exact .inl ⟨by rw [hterminal, hterminal', hliteral], by rw [hterminal]; rfl⟩
  | name ht ht' =>
    rw [isName_iff] at ht ht'
    exact .inl ⟨ht.trans ht'.symm, by rw [ht]; rfl⟩
  | constant hv hv' => exact .inr ⟨_, _, hv, hv'⟩

lemma alike (h : t.SameClass t') : t.Alike .erased t' := by
  rcases h.cases_terminal with ⟨hterminal, hnone⟩ | ⟨v, v', hv, hv'⟩
  · have hread : ∀ u : Token, u.terminal.isConstant = false → u.reading? = none := by
      intro u hu
      rw [← Option.not_isSome_iff_eq_none, isSome_reading?, hu]
      simp
    exact ⟨.inl hterminal, fun _ => rfl, by rw [hread t hnone, hread t' (hterminal ▸ hnone)]⟩
  · have hconstant : ∀ (u : Token) (x : Value), u.Denotes x → u.terminal.isConstant := by
      intro u x hu
      rw [← isSome_reading?, hu.reading?_eq]
      rfl
    refine ⟨.inr ⟨hconstant t v hv, hconstant t' v' hv'⟩, fun _ => rfl, ?_⟩
    rw [hv.reading?_eq, hv'.reading?_eq]
    rfl

lemma reading?_ne_error (h : t.SameClass t') (fault : Numeral.Fault) :
    t.reading? ≠ some (.error fault) := by
  rcases h.cases_terminal with ⟨-, hnone⟩ | ⟨v, -, hv, -⟩
  · intro hread
    have hconstant := isSome_reading?.mp (Option.isSome_of_eq_some hread)
    rw [hnone] at hconstant
    cases hconstant
  · rw [hv.reading?_eq]
    exact nofun

end Token.SameClass

section

variable {α : Type} {tokens tokens' : List Token}

/-- A rule that does alike on alike tokens goes the same course on tokens of the same classes. -/
lemma sameCourse {erase : α → α} {rule : Rule α} [Rule.Orderly rule] {side : Associativity}
    (hagree : Rule.Agree (Comparison.upTo .erased side).toTokenComparison
      (fun v v' => erase v = erase v') rule rule)
    (h : List.Forall₂ Token.SameClass tokens tokens') :
    SameCourse erase ((Session.start side tokens).run rule)
      ((Session.start side tokens').run rule) := by
  have hlike := hagree tokens tokens' (h.imp fun _ _ => Token.SameClass.alike)
  have htaken : ∀ {rest rest' : List Token}, TokensAlike .erased rest rest' →
      tokens.length - rest.length = tokens'.length - rest'.length := fun hrest => by
    rw [h.length_eq, hrest.length_eq]
  have hnumeral : ∀ fault rest, rule tokens ≠ .error (.numeral fault) rest := by
    intro fault rest hrun
    obtain ⟨t, ht, hread⟩ := Rule.Orderly.numeral rule hrun
    obtain ⟨place, hplace, rfl⟩ := List.getElem_of_mem ht
    exact (h.get hplace (h.length_eq ▸ hplace)).reading?_ne_error fault hread
  rw [Session.run_start_eq, Session.run_start_eq]
  generalize rule tokens = out at hlike hnumeral ⊢
  generalize rule tokens' = out' at hlike ⊢
  cases hlike with
  | ok hv hrest => exact ⟨congrArg Nat.cast (htaken hrest), hv⟩
  | @complaint cause cause' rest rest' hcause hrest =>
    exact ⟨congrArg Nat.cast (htaken hrest), cause.kind, rfl,
      congrArg ReportKind.complaint hcause.kind_eq.symm⟩
  | numeral hrest => exact absurd rfl (hnumeral _ _)

/-- **Only the classes of tokens matter.** On tokens that agree class by class, whatever their
names, their values and their offsets are, a source, a statement and an expression are read from
equally many tokens as trees that are the same but for names and values, or are rejected by reports
of one kind at the same place. -/
theorem course_by_class (h : List.Forall₂ Token.SameClass tokens tokens') (side : Associativity)
    (levels : Nat) :
    SameCourse (Source.relabel .erased)
        ((Session.start side tokens).run (Rule.source side levels))
        ((Session.start side tokens').run (Rule.source side levels)) ∧
      SameCourse (Stmt.relabel .erased)
        ((Session.start side tokens).run (Rule.statement side levels))
        ((Session.start side tokens').run (Rule.statement side levels)) ∧
      SameCourse (Expr.relabel .erased)
        ((Session.start side tokens).run (Rule.expression side levels))
        ((Session.start side tokens').run (Rule.expression side levels)) :=
  ⟨sameCourse (Rule.agree_source (.upTo .erased side) levels) h,
    sameCourse (Rule.agree_statement (.upTo .erased side) levels) h,
    sameCourse (Rule.agree_expression (.upTo .erased side) levels) h⟩

end

/-- Two fields whose values are calls, with other names, other constants and other offsets. -/
theorem course_by_class_call :
    let tokens : List Token :=
      [⟨.identifier, ['L', 'E', 'T'], 0⟩, ⟨.identifier, ['a'], 4⟩, ⟨.operator, ['='], 6⟩,
        ⟨.identifier, ['f'], 8⟩, ⟨.operator, ['('], 9⟩, ⟨.integer, ['-', '1'], 10⟩,
        ⟨.operator, [')'], 12⟩, ⟨.operator, [';'], 13⟩]
    let tokens' : List Token :=
      [⟨.identifier, ['l', 'e', 't'], 7⟩, ⟨.identifier, ['b', 'c'], 11⟩, ⟨.operator, ['='], 13⟩,
        ⟨.identifier, ['g'], 14⟩, ⟨.operator, ['('], 15⟩, ⟨.identifier, ['N', 'i', 'l'], 16⟩,
        ⟨.operator, [')'], 19⟩, ⟨.operator, [';'], 20⟩]
    List.Forall₂ Token.SameClass tokens tokens' ∧
      SameCourse (Source.relabel .erased)
        ((Session.start .left tokens).run (Rule.source .left maxNesting))
        ((Session.start .left tokens').run (Rule.source .left maxNesting)) := by
  intro tokens tokens'
  have hnumber : Token.Denotes ⟨.integer, ['-', '1'], 10⟩ (.integer (-1)) :=
    @Token.Denotes.integer _ true ['1'] rfl rfl (by simp) (List.forall_mem_singleton.mpr rfl)
      (by decide)
  have hnil : Token.Denotes ⟨.identifier, ['N', 'i', 'l'], 16⟩ .nil := .nil (by decide)
  have hmark : ∀ (c : Char) (offset offset' : Int),
      Token.SameClass ⟨.operator, [c], offset⟩ ⟨.operator, [c], offset'⟩ :=
    fun c offset offset' => .operator rfl rfl rfl
  have hsame : List.Forall₂ Token.SameClass tokens tokens' :=
    .cons (.keyword .LET rfl (by decide) (by decide)) <| .cons (.name (by decide) (by decide)) <|
      .cons (hmark '=' 6 13) <| .cons (.name (by decide) (by decide)) <|
      .cons (hmark '(' 9 15) <| .cons (.constant hnumber hnil) <| .cons (hmark ')' 12 19) <|
      .cons (hmark ';' 13 20) .nil
  exact ⟨hsame, (course_by_class hsame .left maxNesting).1⟩

end Pebble

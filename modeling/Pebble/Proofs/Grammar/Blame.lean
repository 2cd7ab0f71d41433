import Pebble.Proofs.Grammar.Concatenation
import Pebble.Proofs.Grammar.Semicolon
import Pebble.Proofs.Token.Tiling

/-!
Blame: where a report says that a source goes wrong. Its offset is told by its kind and by how many
tokens have been taken, it lies in the text, and it is the same whether a part of the source is read
by itself or somewhere inside it.
-/

namespace Pebble

/-! ### Stops of what is inside -/

namespace Rule

/-- What is run inside a rule on some tokens: the rule itself and, if it is one rule after another,
what is run inside the first and, once that has given a value, inside the second. -/
inductive Runs : {α β : Type} → Rule α → List Token → Rule β → List Token → Prop
  | here {α : Type} {r : Rule α} {ts : List Token} : Runs r ts r ts
  | first {α β γ : Type} {r : Rule α} {f : α → Rule β} {s : Rule γ} {ts us : List Token} :
    Runs r ts s us → Runs (r >>= f) ts s us
  | second {α β γ : Type} {r : Rule α} {f : α → Rule β} {s : Rule γ} {ts us mid : List Token}
      {v : α} :
    r ts = .ok v mid → Runs (f v) mid s us → Runs (r >>= f) ts s us

/-- A rule stops as one does that is run inside it. -/
lemma Runs.error {α β : Type} {r : Rule α} {s : Rule β} {ts us rest : List Token} {stop : Stop}
    (h : Runs r ts s us) (hstop : s us = .error stop rest) : r ts = .error stop rest := by
  induction h with
  | here => exact hstop
  | first _ ih => exact bind_error (ih hstop)
  | second hv _ ih => exact (bind_ok hv).trans (ih hstop)

end Rule

namespace Plan

variable {α : Type} {o : Openers} {x : Opening} {us rest : List Token} {stop : Stop} {p : Plan α}

/-- Where an opener stops that a plan asks, the plan stops. -/
lemma Asks.run_error (ha : p.Asks o x us) (h : o x us = .error stop rest) :
    p.run o = .error stop rest := by
  induction ha with
  | now => exact run_of_error h
  | later hv _ ih =>
    rw [run_of_ok hv]
    exact ih h

end Plan

/-- What a rule that is built from openers makes of some tokens depends on what one of the openers
makes of others: with another answer there, it may be something else. -/
def Depends {α : Type} (F : Openers → Rule α) (o : Openers) (ts : List Token) (x : Opening)
    (us : List Token) : Prop :=
  ∃ o' : Openers, (∀ y vs, (y = x ∧ vs = us) ∨ o' y vs = o y vs) ∧ F o' ts ≠ F o ts

/-- A rule depends on the levels that it opens. -/
lemma Depends.of_asks {α : Type} {F : Openers → Rule α} {o : Openers} {ts us : List Token}
    {x : Opening} (h : Asks F o ts x us) : Depends F o ts x us := by
  have hsame : ∀ stop y vs, (y = x ∧ vs = us) ∨ o.halting x us stop y vs = o y vs :=
    fun _ _ _ => or_iff_not_imp_left.mpr fun hne => if_neg hne
  by_cases hdeep : F o ts = .error (.complaint .nestingTooDeep) us
  · refine ⟨o.halting x us (.complaint .missingSemicolon), hsame _, ?_⟩
    rw [h, hdeep]
    exact nofun
  · refine ⟨o.halting x us (.complaint .nestingTooDeep), hsame _, ?_⟩
    rw [h]
    exact Ne.symm hdeep

lemma Walks.error_of_depends {α : Type} {F : Openers → Rule α} {E : Stop → Prop} {b c : Int}
    (h : Walks E b c F) {o : Openers} {ts us rest : List Token} {x : Opening} {stop : Stop}
    (hdepends : Depends F o ts x us) (hstop : o x us = .error stop rest) :
    F o ts = .error stop rest := by
  obtain ⟨p, hp, -⟩ := h ts
  obtain ⟨o', hsame, hne⟩ := hdepends
  -- another answer there makes a difference, so it is asked for
  have hasks : p.Asks o x us := by
    by_contra hnot
    refine hne ?_
    rw [hp, hp]
    refine Plan.run_congr fun y vs hy => (hsame y vs).resolve_left ?_
    rintro ⟨rfl, rfl⟩
    exact hnot hy
  rw [hp]
  exact hasks.run_error hstop

namespace Openers

variable {side : Associativity} {depth depth' : Nat} {x y : Opening} {ts us rest : List Token}
  {tokens : List Token} {stop : Stop}

/-- What is made of an opening, with so many levels open around it, depends on what is made of
another one inside it. -/
inductive Inside (side : Associativity) :
    (depth : Nat) → Opening → List Token → (depth' : Nat) → Opening → List Token → Prop
  | here {depth : Nat} {x : Opening} {ts : List Token} : Inside side depth x ts depth x ts
  | inside {depth depth' : Nat} {x y z : Opening} {ts us vs : List Token} : depth < maxNesting →
    Depends (fun o => o.body side x) (within side (maxNesting - (depth + 1))) ts y us →
    Inside side (depth + 1) y us depth' z vs → Inside side depth x ts depth' z vs

lemma Inside.error (h : Inside side depth x ts depth' y us)
    (hstop : within side (maxNesting - depth') y us = .error stop rest) :
    within side (maxNesting - depth) x ts = .error stop rest := by
  induction h with
  | here => exact hstop
  | @inside depth depth' x y z ts us vs hlt hdepends _ ih =>
    rw [within_of_lt hlt]
    exact (Rule.walks_body side x).error_of_depends hdepends (ih hstop)

/-- What is made of a source depends on what is made of an opening somewhere inside it, with so many
levels open around that. -/
def InsideSource (side : Associativity) (tokens : List Token) (depth : Nat) (x : Opening)
    (us : List Token) : Prop :=
  ∃ y vs, Depends source (within side maxNesting) tokens y vs ∧ Inside side 0 y vs depth x us

lemma source_within (levels : Nat) : (within side levels).source = Rule.source side levels := rfl

lemma InsideSource.error (h : InsideSource side tokens depth x us)
    (hstop : within side (maxNesting - depth) x us = .error stop rest) :
    Rule.source side maxNesting tokens = .error stop rest := by
  obtain ⟨y, vs, hdepends, hinside⟩ := h
  rw [← source_within]
  exact walks_source.error_of_depends hdepends (hinside.error hstop)

instance (levels : Nat) (x : Opening) : Rule.Orderly (within side levels x) := by
  cases x with
  | expression => exact inferInstanceAs (Rule.Orderly (Rule.expression side levels))
  | block terminators => exact inferInstanceAs (Rule.Orderly (Rule.block side levels terminators))

end Openers

/-! ### Where a report points -/

/-- Where a report points that is made with so many of the tokens of a text taken: to the token
before, if a semicolon is missing, and to the next one else, or behind the last one. -/
structure Report.Points (text : Text) (tokens : List Token) (taken : Nat) (report : Report) :
    Prop where
  taken_le : taken ≤ tokens.length
  semicolon : report.kind = .complaint .missingSemicolon →
    0 < taken ∧ (∃ t, tokens[taken - 1]? = some t ∧ report.offset = t.offset) ∧
      ∀ t, tokens[taken]? = some t → ¬ (Pattern.mark ';').accepts t
  other : report.kind ≠ .complaint .missingSemicolon →
    (∃ t, tokens[taken]? = some t ∧ report.offset = t.offset) ∨
      taken = tokens.length ∧ ∃ t, tokens.getLast? = some t ∧ report.offset = t.stop
  unexpected : report.kind = .complaint .unexpectedToken → taken < tokens.length
  start_or_end : (∃ t ∈ tokens, report.offset = t.offset) ∨
    ∃ t, tokens.getLast? = some t ∧ report.offset = t.stop
  bounds : 0 ≤ report.offset ∧ report.offset ≤ text.length

lemma offsetAt_start_or_end {tokens : List Token} (hne : tokens ≠ []) {place : Nat}
    (h : place ≤ tokens.length) :
    (∃ t ∈ tokens, offsetAt tokens place = t.offset) ∨
      ∃ t, tokens.getLast? = some t ∧ offsetAt tokens place = t.stop := by
  rcases offsetAt_cases hne h with ⟨t, ht, hoffset⟩ | ⟨-, hlast⟩
  · exact .inl ⟨t, List.mem_of_getElem? ht, hoffset⟩
  · exact .inr hlast

namespace Grammar

variable {side : Associativity} {levels : Nat} {tokens rest : List Token} {cause : Complaint}

/-- A semicolon is missing behind a token, where none comes next. -/
lemma missing_semicolon
    (h : Rule.source side levels tokens = .error (.complaint cause) rest)
    (hkind : cause.kind = .missingSemicolon) :
    cause = .missingSemicolon ∧ 0 < tokens.length - rest.length ∧
      ∀ t, tokens[tokens.length - rest.length]? = some t → ¬ (Pattern.mark ';').accepts t := by
  obtain ⟨rfl, hclear⟩ := Rule.Sincere.missing _ h hkind
  refine ⟨rfl, (pos_of_missing h).2 rfl, fun t ht haccepts => ?_⟩
  have hrest := List.suffix_iff_eq_drop.mp (Rule.suffix_of_error h)
  rw [← List.head?_drop, ← hrest] at ht
  exact hclear t ht (List.mem_singleton.mpr (Pattern.accepts_mark.mp haccepts))

lemma lt_of_unexpected (h : Rule.source side levels tokens = .error (.complaint cause) rest)
    (hkind : cause.kind = .unexpectedToken) : tokens.length - rest.length < tokens.length := by
  obtain ⟨-, t, ht, -⟩ := (unexpected_iff tokens _).mp ⟨cause, rest, h, hkind, rfl⟩
  exact (List.getElem?_eq_some_iff.mp ht).1

/-- A complaint about a source is reported where it should be. -/
lemma points_of_error {text : Text} (htiles : Tiles text 0 tokens)
    (h : Rule.source side levels tokens = .error (.complaint cause) rest) :
    (cause.report (offsetAt tokens (cause.place (tokens.length - rest.length)))).Points text tokens
      (tokens.length - rest.length) := by
  have hne := (pos_of_missing h).1
  have hle : tokens.length - rest.length ≤ tokens.length := Nat.sub_le _ _
  have hplace : cause.place (tokens.length - rest.length) ≤ tokens.length := by
    have := cause.place_cases (tokens.length - rest.length)
    omega
  have hends := offsetAt_start_or_end hne hplace
  -- a missing semicolon is placed one token earlier than all else
  refine ⟨hle, fun hkind => ?_, fun hkind => ?_, fun hkind => ?_, hends, ?_⟩
  · obtain ⟨rfl, hpos, hnext⟩ := missing_semicolon h (ReportKind.complaint.inj hkind)
    have hlt : tokens.length - rest.length - 1 < tokens.length := by omega
    refine ⟨hpos, ⟨_, List.getElem?_eq_getElem hlt, ?_⟩, hnext⟩
    simp only [Complaint.report, Complaint.place, offsetAt, List.getElem?_eq_getElem hlt]
  · have hcause : cause ≠ .missingSemicolon := by
      rintro rfl
      exact hkind rfl
    rw [Complaint.place_of_ne hcause]
    exact offsetAt_cases hne hle
  · exact lt_of_unexpected h (ReportKind.complaint.inj hkind)
  · -- both ends of a token lie in the text
    have hbounds := htiles.bounds
    rcases hends with ⟨t, ht, hoffset⟩ | ⟨t, ht, hoffset⟩
    · have := hbounds t ht
      simp only [Complaint.report, hoffset]
      omega
    · have := hbounds t (List.mem_of_getLast? ht)
      simp only [Complaint.report, hoffset]
      omega

lemma run_source_error {α : Type} {r : Rule α} [Rule.Orderly r] {place depth : Nat}
    {failure : Failure} {s : Session} (hplace : place ≤ tokens.length)
    (hstop : ∀ {stop rest}, r (tokens.drop place) = .error stop rest →
      Rule.source side maxNesting tokens = .error stop rest)
    (hrun : Session.run ⟨⟨tokens, place⟩, side, depth⟩ r = (.error failure, s)) :
    (Session.start side tokens).run (Rule.source side maxNesting) =
      (.error failure, { s with depth := 0 }) := by
  rw [Session.run_eq hplace] at hrun
  rcases hrule : r (tokens.drop place) with ⟨v, rest⟩ | ⟨stop, rest⟩ <;> rw [hrule] at hrun <;>
    cases hrun
  rw [Session.run_start_eq, hstop hrule]
  rfl

end Grammar

/-- **A report points where the run has come to.** If a text is split and its tokens are not read as
a source, the report points to the next token, to the end of the last one if there is no next, and
to the token before if a semicolon is missing. And what is read by itself fails as the whole source
does, at the same place: whatever is run inside the source, and any expression or block inside it on
which it depends what the source comes to. -/
theorem reports_point (side : Associativity) :
    (∀ text tokens report s, lex text = .ok tokens →
      (Session.start side tokens).run (Rule.source side maxNesting) = (.error (.report report), s) →
      ∃ taken : Nat, s.cursor.position = taken ∧ report.Points text tokens taken) ∧
    (∀ tokens depth, ∀ place ≤ tokens.length, ∀ (α : Type) (r : Rule α) failure s,
      Rule.Orderly r → Rule.Runs (Rule.source side maxNesting) tokens r (tokens.drop place) →
      Session.run ⟨⟨tokens, place⟩, side, depth⟩ r = (.error failure, s) →
      (Session.start side tokens).run (Rule.source side maxNesting) =
        (.error failure, { s with depth := 0 })) ∧
    ∀ tokens depth x, ∀ place ≤ tokens.length, ∀ failure s,
      Openers.InsideSource side tokens depth x (tokens.drop place) →
      Session.run ⟨⟨tokens, place⟩, side, depth⟩ (Openers.within side (maxNesting - depth) x) =
        (.error failure, s) →
      (Session.start side tokens).run (Rule.source side maxNesting) =
        (.error failure, { s with depth := 0 }) := by
  refine ⟨fun text tokens report s hlex hrun => ?_, ?_, ?_⟩
  · rw [Session.run_start_eq] at hrun
    rcases hsource : Rule.source side maxNesting tokens with ⟨v, rest⟩ | ⟨cause | fault, rest⟩ <;>
      rw [hsource] at hrun <;> cases hrun
    have htiles := (lex_eq_ok_iff_tiles text tokens).mp hlex
    exact ⟨_, rfl, Grammar.points_of_error htiles hsource⟩
  · intro tokens depth place hplace α r failure s _ hruns hrun
    exact Grammar.run_source_error hplace hruns.error hrun
  · intro tokens depth x place hplace failure s hinside hrun
    exact Grammar.run_source_error hplace hinside.error hrun

/-- A group in which an expression is missing: the source fails as the field does, and that as what
is in the parentheses. -/
theorem reports_point_group :
    let text : Text := "LET x = (;".toList
    let tokens : List Token :=
      [⟨.identifier, ['L', 'E', 'T'], 0⟩, ⟨.identifier, ['x'], 4⟩, ⟨.operator, ['='], 6⟩,
        ⟨.operator, ['('], 8⟩, ⟨.operator, [';'], 9⟩]
    let report : Report := ⟨.complaint .expectedExpression, 9, some "expected an expression".toList⟩
    let field : Rule Field := Rule.field (Rule.expression .left maxNesting)
    (∃ taken : Nat, (4 : Int) = taken ∧ report.Points text tokens taken) ∧
      Rule.Runs (Rule.source .left maxNesting) tokens field (tokens.drop 1) ∧
      Openers.InsideSource .left tokens 1 .expression (tokens.drop 4) ∧
      (Session.start .left tokens).run (Rule.source .left maxNesting) =
        (.error (.report report), ⟨⟨tokens, 4⟩, .left, 0⟩) := by
  intro text tokens report field
  have hlex : lex text = .ok tokens := by decide +kernel
  have hlet : Rule.accepts (.keyword .LET) tokens = .ok true (tokens.drop 1) := rfl
  -- The items, the first of them, and the field after its keyword.
  have hruns : Rule.Runs (Rule.source .left maxNesting) tokens field (tokens.drop 1) :=
    .second rfl (.first (.second rfl (.first (.second hlet (.first .here)))))
  have hinner : Depends (fun o => o.body .left .expression) (Openers.within .left 63)
      (tokens.drop 3) .expression (tokens.drop 4) := .of_asks fun _ => rfl
  have houter : Depends Openers.source (Openers.within .left maxNesting) tokens .expression
      (tokens.drop 3) := .of_asks fun _ => rfl
  have hinside : Openers.InsideSource .left tokens 1 .expression (tokens.drop 4) :=
    ⟨_, _, houter, .inside (by decide) hinner .here⟩
  have hrun := (reports_point .left).2.2 tokens 1 .expression 4 (by decide) _ _ hinside rfl
  have hsame := (reports_point .left).2.1 tokens 0 1 (by decide) _ field _ _ inferInstance hruns rfl
  exact ⟨(reports_point .left).1 text tokens report _ hlex hrun, hruns, hinside, hsame⟩

end Pebble

import Pebble.Proofs.Token.Layout

/-!
Writing: a proper tree is written with symbols that can be written, so that there is a text with
just its symbols.
-/

open Pebble.Symbol (commas)

namespace Pebble

namespace Symbol

lemma proper_word (w : Keyword) : (word w).Proper := trivial

/-- The marks that the grammar uses are operators. -/
lemma proper_mark {c : Char} (h : c ∈ Scan.singles) : (mark c).Proper :=
  Lexeme.mem_operator.mpr (.inr ⟨c, h, rfl⟩)

lemma proper_ofValue {v : Value} (h : v.Proper) : (ofValue v).Proper := by
  rcases v with _ | b | _ | _ | _
  · trivial
  · cases b <;> trivial
  all_goals exact h

lemma proper_operator {level : Level} {literal : Text} (h : literal ∈ level.operators) :
    (operator literal).Proper := by
  have hall : level.operators.all fun literal =>
      Scan.pairs.contains literal || Scan.singles.any fun c => literal == [c] := by
    cases level <;> decide
  have hliteral := List.all_eq_true.mp hall literal h
  exact Lexeme.mem_operator.mpr (by simpa using hliteral)

section

variable {parts : List (List Symbol)}

lemma proper_flatten (h : ∀ part ∈ parts, ∀ s ∈ part, s.Proper) :
    ∀ s ∈ parts.flatten, s.Proper := by
  intro s hs
  obtain ⟨part, hpart, hmem⟩ := List.mem_flatten.mp hs
  exact h part hpart s hmem

lemma proper_commas (h : ∀ part ∈ parts, ∀ s ∈ part, s.Proper) : ∀ s ∈ commas parts, s.Proper := by
  have hcomma : (mark ',').Proper := proper_mark (by decide)
  rcases parts with _ | ⟨part, parts⟩
  · simp [commas]
  obtain ⟨hpart, hparts⟩ := List.forall_mem_cons.mp h
  rw [commas_cons]
  refine List.forall_mem_append.mpr ⟨hpart, proper_flatten ?_⟩
  exact List.forall_mem_map.mpr fun other hother =>
    List.forall_mem_cons.mpr ⟨hcomma, hparts other hother⟩

end

lemma proper_after {α : Type} {c : Char} {symbols : α → List Symbol} {x : Option α}
    (hc : c ∈ Scan.singles) (h : ∀ v ∈ x, ∀ s ∈ symbols v, s.Proper) :
    ∀ s ∈ after c symbols x, s.Proper := by
  cases x with
  | none => simp [after]
  | some v => exact List.forall_mem_cons.mpr ⟨proper_mark hc, h v rfl⟩

end Symbol

section

variable {side : Associativity}

lemma Expr.Proper.arguments {es : List Expr} (h : ∀ e ∈ es, ∀ s ∈ e.symbols, s.Proper) :
    ∀ s ∈ commas (Expr.symbolsOf es), s.Proper := by
  rw [Expr.symbolsOf_eq_map]
  exact Symbol.proper_commas (List.forall_mem_map.mpr h)

lemma Expr.Proper.symbols {e : Expr} (h : e.Proper side) : ∀ s ∈ e.symbols, s.Proper := by
  have hmark : ∀ {c : Char}, c ∈ Scan.singles → (Symbol.mark c).Proper := Symbol.proper_mark
  induction h with
  | literal hv => simpa [Expr.symbols] using Symbol.proper_ofValue hv
  | group _ ih =>
    simp only [Expr.symbols, List.forall_mem_cons, List.forall_mem_append]
    exact ⟨hmark (by decide), ih, hmark (by decide), nofun⟩
  | «variable» hn =>
    rw [Expr.symbols]
    exact List.forall_mem_singleton.mpr hn
  | member _ _ hn ih =>
    simp only [Expr.symbols, List.forall_mem_cons, List.forall_mem_append]
    exact ⟨ih, hmark (by decide), hn, nofun⟩
  | call hn _ ih =>
    simp only [Expr.symbols, List.forall_mem_cons, List.forall_mem_append]
    exact ⟨hn, hmark (by decide), Expr.Proper.arguments ih, hmark (by decide), nofun⟩
  | invoke _ _ hn _ ih ihs =>
    simp only [Expr.symbols, List.forall_mem_cons, List.forall_mem_append]
    exact ⟨ih, hmark (by decide), hn, hmark (by decide), Expr.Proper.arguments ihs,
      hmark (by decide), nofun⟩
  | binary ho _ _ _ ihl ihr =>
    simp only [Expr.symbols, List.forall_mem_cons, List.forall_mem_append]
    exact ⟨ihl, Symbol.proper_operator ho, ihr⟩

lemma Stmt.Proper.bodySymbols {body : List Stmt} (h : ∀ v ∈ body, ∀ s ∈ v.symbols, s.Proper) :
    ∀ s ∈ Stmt.bodySymbols body, s.Proper := by
  rw [Stmt.bodySymbols_eq_flatten]
  exact Symbol.proper_flatten (List.forall_mem_map.mpr h)

lemma Stmt.Proper.symbols {v : Stmt} (h : v.Proper side) : ∀ s ∈ v.symbols, s.Proper := by
  have hmark : ∀ {c : Char}, c ∈ Scan.singles → (Symbol.mark c).Proper := Symbol.proper_mark
  have hword := Symbol.proper_word
  induction h with
  | expression hv =>
    simp only [Stmt.symbols, List.forall_mem_cons, List.forall_mem_append]
    exact ⟨hv.symbols, hmark (by decide), nofun⟩
  | assignment hr hv =>
    simp only [Stmt.symbols, List.forall_mem_cons, List.forall_mem_append]
    exact ⟨hr.symbols, hmark (by decide), hv.symbols, hmark (by decide), nofun⟩
  | declaration hn hv =>
    simp only [Stmt.symbols, List.forall_mem_cons, List.forall_mem_append]
    have hvalue := Symbol.proper_after (c := '=') (by decide) fun e he => (hv e he).symbols
    exact ⟨hword _, hn, hvalue, hmark (by decide), nofun⟩
  | @ifElse _ thenBody elseBody hc _ _ ihthen ihelse =>
    -- nothing is written for an empty else part
    have helse : ∀ s ∈ if elseBody.isEmpty then [] else
        Symbol.word .ELSE :: Stmt.bodySymbols elseBody, s.Proper := by
      split
      · nofun
      · exact List.forall_mem_cons.mpr ⟨hword _, Stmt.Proper.bodySymbols ihelse⟩
    simp only [Stmt.symbols, List.forall_mem_cons, List.forall_mem_append]
    exact ⟨hword _, hc.symbols, hword _, Stmt.Proper.bodySymbols ihthen, helse, hword _, nofun⟩
  | forIn hn hv _ ih =>
    simp only [Stmt.symbols, List.forall_mem_cons, List.forall_mem_append]
    exact ⟨hword _, hn, hword _, hv.symbols, hword _, Stmt.Proper.bodySymbols ih, hword _, nofun⟩
  | whileDo hc _ ih =>
    simp only [Stmt.symbols, List.forall_mem_cons, List.forall_mem_append]
    exact ⟨hword _, hc.symbols, hword _, Stmt.Proper.bodySymbols ih, hword _, nofun⟩
  | «return» hv =>
    simp only [Stmt.symbols, List.forall_mem_cons, List.forall_mem_append]
    exact ⟨hword _, hv.symbols, hmark (by decide), nofun⟩

lemma Field.Proper.symbols {f : Field} (h : f.Proper side) : ∀ s ∈ f.symbols, s.Proper := by
  have htype : ∀ s ∈ Symbol.after ':' (fun n => [.name n]) f.typeName, s.Proper :=
    Symbol.proper_after (by decide) fun n hn =>
      List.forall_mem_singleton.mpr (h.typeName n hn)
  have hvalue := Symbol.proper_after (c := '=') (by decide) fun e he => (h.value e he).symbols
  simp only [Field.symbols, List.forall_mem_cons, List.forall_mem_append]
  exact ⟨trivial, h.name, htype, hvalue, Symbol.proper_mark (by decide), nofun⟩

lemma Method.Proper.symbols {m : Method} (h : m.Proper side) : ∀ s ∈ m.symbols, s.Proper := by
  have hnames : ∀ part ∈ m.parameters.map fun n => [Symbol.name n], ∀ s ∈ part, s.Proper :=
    List.forall_mem_map.mpr fun n hn => List.forall_mem_singleton.mpr (h.parameters n hn)
  have hbody := Stmt.Proper.bodySymbols fun v hv => (h.body v hv).symbols
  simp only [Method.symbols, List.forall_mem_cons, List.forall_mem_append]
  exact ⟨trivial, h.name, Symbol.proper_mark (by decide), Symbol.proper_commas hnames,
    Symbol.proper_mark (by decide), trivial, hbody, trivial, nofun⟩

/-- A proper source is written with proper symbols, the fields first. -/
lemma Source.Proper.symbols {s : Source} (h : s.Proper side) :
    ∀ symbol ∈ (s.fields.map Field.symbols).flatten ++ (s.methods.map Method.symbols).flatten,
      symbol.Proper := by
  refine List.forall_mem_append.mpr ⟨Symbol.proper_flatten ?_, Symbol.proper_flatten ?_⟩
  · exact List.forall_mem_map.mpr fun f hf => (h.fields f hf).symbols
  · exact List.forall_mem_map.mpr fun m hm => (h.methods m hm).symbols

end

end Pebble

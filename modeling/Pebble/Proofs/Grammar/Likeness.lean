import Pebble.Proofs.Grammar.Comparison
import Pebble.Proofs.Tree.Relabel

/-!
Likeness: what the rules do depends on the terminals of the tokens alone. On tokens that differ
only in their offsets and in what a relabelling makes equal, they come equally far, and what they
read becomes equal by the same relabelling.
-/

namespace Pebble

/-- Two tokens are alike if they have one terminal or are both constants, and if the names and the
values that they stand for become equal. -/
structure Token.Alike (w : Relabelling) (t t' : Token) : Prop where
  terminal : t.terminal = t'.terminal ∨ (t.terminal.isConstant ∧ t'.terminal.isConstant)
  name : t.terminal = .name → w.name t.literal = w.name t'.literal
  reading : t.reading?.map (Except.map w.value) = t'.reading?.map (Except.map w.value)

abbrev TokensAlike (w : Relabelling) : List Token → List Token → Prop :=
  List.Forall₂ (Token.Alike w)

inductive Complaint.Alike : Complaint → Complaint → Prop
  | same (cause : Complaint) : Alike cause cause
  | unexpected (literal literal' : Text) :
    Alike (.unexpectedToken literal) (.unexpectedToken literal')

lemma Complaint.Alike.kind_eq {cause cause' : Complaint} (h : cause.Alike cause') :
    cause.kind = cause'.kind := by
  cases h <;> rfl

lemma Token.Alike.readingsAlike {w : Relabelling} {t t' : Token} (h : t.Alike w t') :
    ReadingsAlike (fun v v' => w.value v = w.value v') t.reading? t'.reading? := by
  have hread := h.reading
  generalize t.reading? = reading at hread ⊢
  generalize t'.reading? = reading' at hread ⊢
  rcases reading with _ | fault | v <;> rcases reading' with _ | fault' | v' <;>
    simp only [Option.map, Except.map, Option.some.injEq, Except.error.injEq, Except.ok.injEq,
      reduceCtorEq] at hread
  · exact .none
  · subst hread
    exact .fault fault
  · exact .value hread

namespace Relabelling

variable (w : Relabelling)

lemma relabelLinks_eq {level : Level} {links links' : List (Text × Expr)}
    (h : List.Forall₂ (LinksAlike level fun e e' => e.relabel w = e'.relabel w) links links') :
    Expr.relabelLinks w links = Expr.relabelLinks w links' :=
  map_eq_map_of_forall₂ (h.imp fun _ _ hlink => Prod.ext hlink.operator hlink.operand)

lemma relabelAll_eq {es es' : List Expr}
    (h : List.Forall₂ (fun e e' => e.relabel w = e'.relabel w) es es') :
    Expr.relabelAll w es = Expr.relabelAll w es' := by
  rw [Expr.relabelAll_eq, Expr.relabelAll_eq, map_eq_map_of_forall₂ h]

lemma relabelBody_eq {body body' : List Stmt}
    (h : List.Forall₂ (fun v v' => v.relabel w = v'.relabel w) body body') :
    Stmt.relabelAll w body = Stmt.relabelAll w body' := by
  rw [Stmt.relabelAll_eq, Stmt.relabelAll_eq, map_eq_map_of_forall₂ h]

end Relabelling

/-- Two runs to one side, compared up to a relabelling. -/
def Comparison.upTo (w : Relabelling) (side : Associativity) : Comparison where
  token := Token.Alike w
  complaint := Complaint.Alike
  name n n' := w.name n = w.name n'
  value v v' := w.value v = w.value v'
  terminal h := h.terminal
  named h := h.name
  reading h := h.readingsAlike
  same := .same
  unexpected _ := .unexpected _ _
  side := side
  side' := side
  expr _ e e' := e.relabel w = e'.relabel w
  stmt v v' := v.relabel w = v'.relabel w
  field f f' := f.relabel w = f'.relabel w
  method m m' := m.relabel w = m'.relabel w
  source s s' := s.relabel w = s'.relabel w
  literal h := by simp only [Expr.relabel, h]
  group h := by simp only [Expr.relabel, h]
  «variable» h := by simp only [Expr.relabel, h]
  member h hn := by simp only [Expr.relabel, h, hn]
  call hn hes := by simp only [Expr.relabel, hn, w.relabelAll_eq hes]
  invoke h hn hes := by simp only [Expr.relabel, h, hn, w.relabelAll_eq hes]
  fold h hls := by rw [Expr.relabel_fold, Expr.relabel_fold, h, w.relabelLinks_eq hls]
  expression h := by simp only [Stmt.relabel, h]
  assignment h h' := by simp only [Stmt.relabel, h, h']
  declaration hn hx := by
    simp only [Stmt.relabel, Expr.relabelOption, hn, map_eq_map_of_rel hx]
  ifElse h hb ho := by simp only [Stmt.relabel, h, w.relabelBody_eq hb, w.relabelBody_eq ho]
  forIn hn h hb := by simp only [Stmt.relabel, hn, h, w.relabelBody_eq hb]
  whileDo h hb := by simp only [Stmt.relabel, h, w.relabelBody_eq hb]
  returning h := by simp only [Stmt.relabel, h]
  ofField hn hty hx := by
    simp only [Field.relabel, Expr.relabelOption, hn, map_eq_map_of_rel hty, map_eq_map_of_rel hx]
  ofMethod hn hps hb := by
    simp only [Method.relabel, hn, map_eq_map_of_forall₂ hps, w.relabelBody_eq hb]
  empty := rfl
  addField hf hs := by
    obtain ⟨hfields, hmethods⟩ := Source.mk.inj hs
    simp only [Source.relabel, List.map_cons, hf, hfields, hmethods]
  addMethod hm hs := by
    obtain ⟨hfields, hmethods⟩ := Source.mk.inj hs
    simp only [Source.relabel, List.map_cons, hm, hfields, hmethods]

end Pebble

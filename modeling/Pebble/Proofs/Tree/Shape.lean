import Pebble.Proofs.Tree.Distinction

/-!
Shape: the records of trees are made of values, lists, and nodes that have as many parts as their
kind has names for.
-/

namespace Pebble

namespace Record

/-- A record with no other record in it. -/
def IsAtom : Record → Prop
  | list _ | node _ _ => False
  | _ => True

/-- The record of a tree, or of some part of it. -/
inductive Shaped : Record → Prop
  | atom {r : Record} (h : r.IsAtom) : Shaped r
  | list {items : List Record} (h : ∀ r ∈ items, Shaped r) : Shaped (.list items)
  | node (kind : NodeKind) {values : List Record} (hlength : values.length = kind.parts.length)
      (h : ∀ r ∈ values, Shaped r) : Shaped (kind.node values)

lemma shaped_nil : nil.Shaped := .atom trivial

lemma shaped_text (t : Text) : (text t).Shaped := .atom trivial

lemma shaped_ofOption {α : Type} {record : α → Record} (h : ∀ a, (record a).Shaped)
    (a : Option α) : (ofOption record a).Shaped := by
  cases a with
  | none => exact shaped_nil
  | some a => exact h a

end Record

section Shaped

open Record

lemma Value.record_shaped (value : Value) : value.record.Shaped :=
  .atom (by cases value <;> trivial)

mutual

lemma Expr.record_shaped : ∀ e : Expr, e.record.Shaped
  | .literal value => .node _ rfl (by simpa using value.record_shaped)
  | .group inner => .node _ rfl (by simpa using record_shaped inner)
  | .variable name => .node _ rfl (by simpa using ⟨shaped_nil, shaped_text name⟩)
  | .member receiver name =>
    .node _ rfl (by simpa using ⟨record_shaped receiver, shaped_text name⟩)
  | .call name arguments =>
    .node _ rfl (by
      simpa using ⟨shaped_nil, shaped_text name, .list (records_shaped arguments)⟩)
  | .invoke receiver name arguments =>
    .node _ rfl (by
      simpa using ⟨record_shaped receiver, shaped_text name, .list (records_shaped arguments)⟩)
  | .binary operator left right =>
    .node _ rfl (by
      simpa using ⟨shaped_text operator, record_shaped left, record_shaped right⟩)

lemma Expr.records_shaped : ∀ es : List Expr, ∀ r ∈ Expr.records es, r.Shaped
  | [] => List.forall_mem_nil _
  | e :: es => List.forall_mem_cons.mpr ⟨record_shaped e, records_shaped es⟩

end

mutual

lemma Stmt.record_shaped : ∀ s : Stmt, s.record.Shaped
  | .expression value => .node _ rfl (by simpa using value.record_shaped)
  | .assignment receiver value =>
    .node _ rfl (by simpa using ⟨receiver.record_shaped, value.record_shaped⟩)
  | .declaration name value =>
    .node _ rfl (by simpa using ⟨shaped_text name, shaped_ofOption Expr.record_shaped value⟩)
  | .ifElse condition thenBody elseBody =>
    .node _ rfl (by
      simpa using ⟨condition.record_shaped, .list (records_shaped thenBody),
        .list (records_shaped elseBody)⟩)
  | .forIn name value body =>
    .node _ rfl (by
      simpa using ⟨shaped_text name, value.record_shaped, .list (records_shaped body)⟩)
  | .whileDo condition body =>
    .node _ rfl (by simpa using ⟨condition.record_shaped, .list (records_shaped body)⟩)
  | .return value => .node _ rfl (by simpa using value.record_shaped)

lemma Stmt.records_shaped : ∀ ss : List Stmt, ∀ r ∈ Stmt.records ss, r.Shaped
  | [] => List.forall_mem_nil _
  | s :: ss => List.forall_mem_cons.mpr ⟨record_shaped s, records_shaped ss⟩

end

lemma Field.record_shaped (f : Field) : f.record.Shaped :=
  .node _ rfl (by
    simpa using ⟨shaped_text f.name, shaped_ofOption shaped_text f.typeName,
      shaped_ofOption Expr.record_shaped f.value⟩)

lemma Method.record_shaped (m : Method) : m.record.Shaped :=
  .node _ rfl (by
    simpa using ⟨shaped_text m.name,
      .list (List.forall_mem_map.mpr fun name _ => shaped_text name),
      .list (Stmt.records_shaped m.body)⟩)

lemma Source.record_shaped (s : Source) : s.record.Shaped :=
  .node _ rfl (by
    simpa using ⟨.list (List.forall_mem_map.mpr fun f _ => f.record_shaped),
      .list (List.forall_mem_map.mpr fun m _ => m.record_shaped)⟩)

end Shaped

end Pebble

import Pebble.Proofs.Tree.Datum

/-!
Congruence: two trees are equal just if their records are, which is just if these say the same; so
equality is an equivalence, and what is built from equal parts is equal.
-/

namespace Pebble

/-! ### Trees and their records -/

section Records

open Record

/-- Nodes of different kinds are not equal. -/
lemma Record.not_alike_of_ne {kind kind' : NodeKind} {values values' : List Record}
    (h : kind ≠ kind') : ¬ (kind.node values).alike (kind'.node values') := by
  intro halike
  rw [NodeKind.node, NodeKind.node, alike, Bool.and_eq_true, beq_iff_eq] at halike
  exact h (NodeKind.tag_injective halike.1)

lemma Value.alike_record (v w : Value) : v.record.alike w.record ↔ v.alike w := by
  cases v with
  | decimal d =>
    cases w with
    | decimal d' => cases d <;> cases d' <;> exact Iff.rfl
    | _ => cases d <;> exact Iff.rfl
  | _ =>
    cases w with
    | decimal d' => cases d' <;> exact Iff.rfl
    | _ => exact Iff.rfl

mutual

-- A variable and a member are both accesses, told apart by the receiver, and so are the two calls.
lemma Expr.alike_record : ∀ e e' : Expr, e.record.alike e'.record ↔ e.alike e'
  | .literal v, e' => by
    cases e' with
    | literal v' =>
      refine (alike_node rfl rfl).trans ?_
      simp [itemsAlike, Expr.alike, v.alike_record]
    | _ => exact iff_of_false (not_alike_of_ne nofun) Bool.false_ne_true
  | .group inner, e' => by
    cases e' with
    | group inner' =>
      refine (alike_node rfl rfl).trans ?_
      simp [itemsAlike, Expr.alike, alike_record inner]
    | _ => exact iff_of_false (not_alike_of_ne nofun) Bool.false_ne_true
  | .variable name, e' => by
    cases e' with
    | «variable» name' =>
      refine (alike_node rfl rfl).trans ?_
      simp [itemsAlike, Expr.alike, Record.alike]
    -- of one kind, told apart by the receiver that is there or not
    | member receiver' name' =>
      refine (alike_node rfl rfl).trans ?_
      simp [itemsAlike, Expr.alike, nil_alike_iff, receiver'.record_ne_nil]
    | _ => exact iff_of_false (not_alike_of_ne nofun) Bool.false_ne_true
  | .member receiver name, e' => by
    cases e' with
    | «variable» name' =>
      refine (alike_node rfl rfl).trans ?_
      simp [itemsAlike, Expr.alike, alike_nil_iff, receiver.record_ne_nil]
    | member receiver' name' =>
      refine (alike_node rfl rfl).trans ?_
      simp [itemsAlike, Expr.alike, Record.alike, alike_record receiver]
    | _ => exact iff_of_false (not_alike_of_ne nofun) Bool.false_ne_true
  | .call name arguments, e' => by
    cases e' with
    | call name' arguments' =>
      refine (alike_node rfl rfl).trans ?_
      simp [itemsAlike, Expr.alike, Record.alike, allAlike_records arguments]
    -- of one kind as well
    | invoke receiver' name' arguments' =>
      refine (alike_node rfl rfl).trans ?_
      simp [itemsAlike, Expr.alike, nil_alike_iff, receiver'.record_ne_nil]
    | _ => exact iff_of_false (not_alike_of_ne nofun) Bool.false_ne_true
  | .invoke receiver name arguments, e' => by
    cases e' with
    | call name' arguments' =>
      refine (alike_node rfl rfl).trans ?_
      simp [itemsAlike, Expr.alike, alike_nil_iff, receiver.record_ne_nil]
    | invoke receiver' name' arguments' =>
      refine (alike_node rfl rfl).trans ?_
      simp [itemsAlike, Expr.alike, Record.alike, alike_record receiver,
        allAlike_records arguments, and_assoc]
    | _ => exact iff_of_false (not_alike_of_ne nofun) Bool.false_ne_true
  | .binary operator left right, e' => by
    cases e' with
    | binary operator' left' right' =>
      refine (alike_node rfl rfl).trans ?_
      simp [itemsAlike, Expr.alike, Record.alike, alike_record left, alike_record right, and_assoc]
    | _ => exact iff_of_false (not_alike_of_ne nofun) Bool.false_ne_true

lemma Expr.allAlike_records :
    ∀ es es' : List Expr, itemsAlike (Expr.records es) (Expr.records es') ↔ Expr.allAlike es es'
  | [], [] => Iff.rfl
  | [], _ :: _ => Iff.rfl
  | _ :: _, [] => Iff.rfl
  | e :: es, e' :: es' => by
    rw [Expr.records, Expr.records, itemsAlike, Expr.allAlike, Bool.and_eq_true, Bool.and_eq_true,
      alike_record e e', allAlike_records es es']

end

lemma Expr.optionAlike_record (e e' : Option Expr) :
    (ofOption Expr.record e).alike (ofOption Expr.record e') ↔ optionAlike Expr.alike e e' := by
  cases e with
  | none =>
    cases e' with
    | none => exact Iff.rfl
    | some e' => exact (nil_alike_iff _).trans (iff_of_false e'.record_ne_nil Bool.false_ne_true)
  | some e =>
    cases e' with
    | none => exact (alike_nil_iff _).trans (iff_of_false e.record_ne_nil Bool.false_ne_true)
    | some e' => exact e.alike_record e'

mutual

lemma Stmt.alike_record : ∀ s s' : Stmt, s.record.alike s'.record ↔ s.alike s'
  | .expression value, s' => by
    cases s' with
    | expression value' =>
      refine (alike_node rfl rfl).trans ?_
      simp [itemsAlike, Stmt.alike, value.alike_record]
    | _ => exact iff_of_false (not_alike_of_ne nofun) Bool.false_ne_true
  | .assignment receiver value, s' => by
    cases s' with
    | assignment receiver' value' =>
      refine (alike_node rfl rfl).trans ?_
      simp [itemsAlike, Stmt.alike, receiver.alike_record, value.alike_record]
    | _ => exact iff_of_false (not_alike_of_ne nofun) Bool.false_ne_true
  | .declaration name value, s' => by
    cases s' with
    | declaration name' value' =>
      refine (alike_node rfl rfl).trans ?_
      simp [itemsAlike, Stmt.alike, Record.alike, Expr.optionAlike_record value]
    | _ => exact iff_of_false (not_alike_of_ne nofun) Bool.false_ne_true
  | .ifElse condition thenBody elseBody, s' => by
    cases s' with
    | ifElse condition' thenBody' elseBody' =>
      refine (alike_node rfl rfl).trans ?_
      simp [itemsAlike, Stmt.alike, Record.alike, condition.alike_record,
        allAlike_records thenBody, allAlike_records elseBody, and_assoc]
    | _ => exact iff_of_false (not_alike_of_ne nofun) Bool.false_ne_true
  | .forIn name value body, s' => by
    cases s' with
    | forIn name' value' body' =>
      refine (alike_node rfl rfl).trans ?_
      simp [itemsAlike, Stmt.alike, Record.alike, value.alike_record, allAlike_records body,
        and_assoc]
    | _ => exact iff_of_false (not_alike_of_ne nofun) Bool.false_ne_true
  | .whileDo condition body, s' => by
    cases s' with
    | whileDo condition' body' =>
      refine (alike_node rfl rfl).trans ?_
      simp [itemsAlike, Stmt.alike, Record.alike, condition.alike_record, allAlike_records body]
    | _ => exact iff_of_false (not_alike_of_ne nofun) Bool.false_ne_true
  | .return value, s' => by
    cases s' with
    | «return» value' =>
      refine (alike_node rfl rfl).trans ?_
      simp [itemsAlike, Stmt.alike, value.alike_record]
    | _ => exact iff_of_false (not_alike_of_ne nofun) Bool.false_ne_true

lemma Stmt.allAlike_records :
    ∀ ss ss' : List Stmt, itemsAlike (Stmt.records ss) (Stmt.records ss') ↔ Stmt.allAlike ss ss'
  | [], [] => Iff.rfl
  | [], _ :: _ => Iff.rfl
  | _ :: _, [] => Iff.rfl
  | s :: ss, s' :: ss' => by
    rw [Stmt.records, Stmt.records, itemsAlike, Stmt.allAlike, Bool.and_eq_true, Bool.and_eq_true,
      alike_record s s', allAlike_records ss ss']

end

lemma Record.itemsAlike_map {α : Type} {record : α → Record} {alike : α → α → Bool}
    (h : ∀ a b, (record a).alike (record b) ↔ alike a b) (as bs : List α) :
    itemsAlike (as.map record) (bs.map record) ↔ listAlike alike as bs := by
  induction as generalizing bs with
  | nil => cases bs <;> exact Iff.rfl
  | cons a as ih =>
    cases bs with
    | nil => exact Iff.rfl
    | cons b bs =>
      rw [List.map_cons, List.map_cons, itemsAlike, listAlike, Bool.and_eq_true, Bool.and_eq_true,
        h a b, ih bs]

lemma Record.itemsAlike_texts (names names' : List Text) :
    itemsAlike (names.map .text) (names'.map .text) ↔ names = names' := by
  induction names generalizing names' with
  | nil => cases names' <;> simp [itemsAlike]
  | cons name names ih => cases names' <;> simp [itemsAlike, Record.alike, ih]

lemma Record.optionAlike_text (name name' : Option Text) :
    (ofOption .text name).alike (ofOption .text name') ↔ name = name' := by
  cases name with
  | none => cases name' <;> simp [ofOption, nil_alike_iff]
  | some name =>
    cases name' with
    | none => simp [ofOption, alike_nil_iff]
    | some name' => simp [ofOption, Record.alike]

lemma Field.alike_record (f f' : Field) : f.record.alike f'.record ↔ f.alike f' := by
  refine (alike_node rfl rfl).trans ?_
  simp [itemsAlike, Field.alike, Record.alike, optionAlike_text, Expr.optionAlike_record, and_assoc]

lemma Method.alike_record (m m' : Method) : m.record.alike m'.record ↔ m.alike m' := by
  refine (alike_node rfl rfl).trans ?_
  simp [itemsAlike, Method.alike, Record.alike, itemsAlike_texts, Stmt.allAlike_records, and_assoc]

lemma Source.alike_record (s s' : Source) : s.record.alike s'.record ↔ s.alike s' := by
  refine (alike_node rfl rfl).trans ?_
  simp [itemsAlike, Source.alike, Record.alike, itemsAlike_map Field.alike_record,
    itemsAlike_map Method.alike_record]

end Records

/-! ### Nodes of any kind -/

inductive Node where
  | expr (e : Expr)
  | stmt (s : Stmt)
  | field (f : Field)
  | method (m : Method)
  | source (s : Source)

namespace Node

def record : Node → Record
  | expr e => e.record
  | stmt s => s.record
  | field f => f.record
  | method m => m.record
  | source s => s.record

def alike : Node → Node → Bool
  | expr e, expr e' => e.alike e'
  | stmt s, stmt s' => s.alike s'
  | field f, field f' => f.alike f'
  | method m, method m' => m.alike m'
  | source s, source s' => s.alike s'
  | _, _ => false

def kinds : Node → List NodeKind
  | expr _ => [.literal, .group, .access, .function, .binary]
  | stmt _ => [.expression, .assignment, .declaration, .ifElse, .forIn, .whileDo, .return]
  | field _ => [.field]
  | method _ => [.method]
  | source _ => [.source]

lemma exists_kind (a : Node) : ∃ kind ∈ a.kinds, ∃ values, a.record = kind.node values := by
  cases a with
  | expr e => cases e <;> exact ⟨_, by simp [kinds], _, rfl⟩
  | stmt s => cases s <;> exact ⟨_, by simp [kinds], _, rfl⟩
  | field f => exact ⟨_, by simp [kinds], _, rfl⟩
  | method m => exact ⟨_, by simp [kinds], _, rfl⟩
  | source s => exact ⟨_, by simp [kinds], _, rfl⟩

lemma shaped (a : Node) : a.record.Shaped := by
  cases a with
  | expr e => exact e.record_shaped
  | stmt s => exact s.record_shaped
  | field f => exact f.record_shaped
  | method m => exact m.record_shaped
  | source s => exact s.record_shaped

/-- Nodes that are of no kind in common have different records. -/
lemma not_alike_of_disjoint {a b : Node} (h : ∀ kind ∈ a.kinds, kind ∉ b.kinds) :
    ¬ a.record.alike b.record := by
  obtain ⟨kind, hkind, values, hvalues⟩ := a.exists_kind
  obtain ⟨kind', hkind', values', hvalues'⟩ := b.exists_kind
  rw [hvalues, hvalues']
  exact Record.not_alike_of_ne fun heq => h kind hkind (heq ▸ hkind')

lemma alike_record (a b : Node) : a.record.alike b.record ↔ a.alike b := by
  cases a with
  | expr e =>
    cases b with
    | expr e' => exact e.alike_record e'
    | _ => exact iff_of_false (not_alike_of_disjoint (by simp [kinds])) Bool.false_ne_true
  | stmt s =>
    cases b with
    | stmt s' => exact s.alike_record s'
    | _ => exact iff_of_false (not_alike_of_disjoint (by simp [kinds])) Bool.false_ne_true
  | field f =>
    cases b with
    | field f' => exact f.alike_record f'
    | _ => exact iff_of_false (not_alike_of_disjoint (by simp [kinds])) Bool.false_ne_true
  | method m =>
    cases b with
    | method m' => exact m.alike_record m'
    | _ => exact iff_of_false (not_alike_of_disjoint (by simp [kinds])) Bool.false_ne_true
  | source s =>
    cases b with
    | source s' => exact s.alike_record s'
    | _ => exact iff_of_false (not_alike_of_disjoint (by simp [kinds])) Bool.false_ne_true

end Node

/-- A tree: a node in which no literal is a decimal that is no number. -/
def Tree : Type := { a : Node // a.record.Comparable }

namespace Tree

variable {a b c : Tree}

def datum (a : Tree) : Datum := a.1.record.datum

lemma alike_iff (a b : Tree) : a.1.alike b.1 ↔ a.datum = b.datum :=
  (a.1.alike_record b.1).symm.trans (a.1.shaped.alike_iff b.1.shaped a.2)

lemma equivalence : Equivalence fun a b : Tree => a.1.alike b.1 where
  refl a := (alike_iff a a).2 rfl
  symm h := (alike_iff _ _).2 ((alike_iff _ _).1 h).symm
  trans h h' := (alike_iff _ _).2 (((alike_iff _ _).1 h).trans ((alike_iff _ _).1 h'))

end Tree

/-! ### What is built from equal parts -/

/-- Relations on values and on nodes that are kept by everything nodes are built with. -/
structure Congruence (values : Value → Value → Prop) (exprs : Expr → Expr → Prop)
    (stmts : Stmt → Stmt → Prop) (fields : Field → Field → Prop) (methods : Method → Method → Prop)
    (sources : Source → Source → Prop) : Prop where
  literal {v w} : values v w → exprs (.literal v) (.literal w)
  group {a b} : exprs a b → exprs (.group a) (.group b)
  «variable» (name) : exprs (.variable name) (.variable name)
  member {a b} (name) : exprs a b → exprs (.member a name) (.member b name)
  call {as bs} (name) : List.Forall₂ exprs as bs → exprs (.call name as) (.call name bs)
  invoke {a b as bs} (name) : exprs a b → List.Forall₂ exprs as bs →
    exprs (.invoke a name as) (.invoke b name bs)
  binary {a b a' b'} (operator) : exprs a b → exprs a' b' →
    exprs (.binary operator a a') (.binary operator b b')
  expression {a b} : exprs a b → stmts (.expression a) (.expression b)
  assignment {a b a' b'} : exprs a b → exprs a' b' → stmts (.assignment a a') (.assignment b b')
  declaration {v w} (name) : Option.Rel exprs v w →
    stmts (.declaration name v) (.declaration name w)
  ifElse {a b as bs as' bs'} : exprs a b → List.Forall₂ stmts as bs →
    List.Forall₂ stmts as' bs' → stmts (.ifElse a as as') (.ifElse b bs bs')
  forIn {a b as bs} (name) : exprs a b → List.Forall₂ stmts as bs →
    stmts (.forIn name a as) (.forIn name b bs)
  whileDo {a b as bs} : exprs a b → List.Forall₂ stmts as bs →
    stmts (.whileDo a as) (.whileDo b bs)
  «return» {a b} : exprs a b → stmts (.return a) (.return b)
  field {v w} (name typeName) : Option.Rel exprs v w →
    fields ⟨name, typeName, v⟩ ⟨name, typeName, w⟩
  method {as bs} (name parameters) : List.Forall₂ stmts as bs →
    methods ⟨name, parameters, as⟩ ⟨name, parameters, bs⟩
  source {fs gs ms ns} : List.Forall₂ fields fs gs → List.Forall₂ methods ms ns →
    sources ⟨fs, ms⟩ ⟨gs, ns⟩

lemma listAlike_of_forall₂ {α : Type} {alike : α → α → Bool} {as bs : List α}
    (h : List.Forall₂ (fun a b => alike a b) as bs) : listAlike alike as bs := by
  induction h with
  | nil => rfl
  | cons hab _ ih => rw [listAlike, hab, ih, Bool.true_and]

lemma Expr.allAlike_of_forall₂ {es es' : List Expr}
    (h : List.Forall₂ (fun e e' => e.alike e') es es') : Expr.allAlike es es' := by
  induction h with
  | nil => rfl
  | cons hab _ ih => rw [Expr.allAlike, hab, ih, Bool.true_and]

lemma Stmt.allAlike_of_forall₂ {ss ss' : List Stmt}
    (h : List.Forall₂ (fun s s' => s.alike s') ss ss') : Stmt.allAlike ss ss' := by
  induction h with
  | nil => rfl
  | cons hab _ ih => rw [Stmt.allAlike, hab, ih, Bool.true_and]

lemma optionAlike_of_rel {α : Type} {alike : α → α → Bool} {a b : Option α}
    (h : Option.Rel (fun a b => alike a b) a b) : optionAlike alike a b := by
  cases h with
  | none => rfl
  | some hab => exact hab

lemma congruence_alike :
    Congruence (fun v w => v.alike w) (fun a b => a.alike b) (fun a b => a.alike b)
      (fun a b => a.alike b) (fun a b => a.alike b) (fun a b => a.alike b) where
  literal h := h
  group h := h
  «variable» name := by simp [Expr.alike]
  member name h := by simp [Expr.alike, h]
  call name h := by simp [Expr.alike, Expr.allAlike_of_forall₂ h]
  invoke name h h' := by simp [Expr.alike, h, Expr.allAlike_of_forall₂ h']
  binary operator h h' := by simp [Expr.alike, h, h']
  expression h := h
  assignment h h' := by simp [Stmt.alike, h, h']
  declaration name h := by simp [Stmt.alike, optionAlike_of_rel h]
  ifElse h h' h'' := by
    simp [Stmt.alike, h, Stmt.allAlike_of_forall₂ h', Stmt.allAlike_of_forall₂ h'']
  forIn name h h' := by simp [Stmt.alike, h, Stmt.allAlike_of_forall₂ h']
  whileDo h h' := by simp [Stmt.alike, h, Stmt.allAlike_of_forall₂ h']
  «return» h := h
  field name typeName h := by simp [Field.alike, optionAlike_of_rel h]
  method name parameters h := by simp [Method.alike, Stmt.allAlike_of_forall₂ h]
  source h h' := by simp [Source.alike, listAlike_of_forall₂ h, listAlike_of_forall₂ h']

/-- **Records are faithful to equality.** Two nodes are equal just if their records are, which is,
as long as every decimal in them is a number or infinite, just if these say the same. Equality is
then an equivalence, and nodes that are built in the same way from equal parts are equal. -/
theorem record_faithful :
    (∀ a b : Node, a.alike b ↔ a.record.alike b.record) ∧
      (∀ a b : Tree, a.1.alike b.1 ↔ a.datum = b.datum) ∧
      Equivalence (fun a b : Tree => a.1.alike b.1) ∧
      Congruence (fun v w => v.alike w) (fun a b => a.alike b) (fun a b => a.alike b)
        (fun a b => a.alike b) (fun a b => a.alike b) (fun a b => a.alike b) :=
  ⟨fun a b => (a.alike_record b).symm, Tree.alike_iff, Tree.equivalence, congruence_alike⟩

/-- Numbers are equal by their values: `1`, `1.00` and `TRUE`, and `-0.0` and `0`. -/
example :
    (Expr.literal (.integer 1)).alike (.literal (.decimal (.finite false 100 (-2)))) ∧
      (Expr.literal (.decimal (.finite false 100 (-2)))).alike (.literal (.bool true)) ∧
      (Expr.literal (.decimal (.finite true 0 (-1)))).alike (.literal (.integer 0)) := by
  decide

end Pebble

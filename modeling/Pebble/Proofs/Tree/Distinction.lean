import Mathlib.Data.List.Nodup
import Pebble.Proofs.Tree.Relabel
import Pebble.Tree.Content

/-!
Distinction: the JSON value of a tree tells the tree, but for decimals, which are not told from the
texts that show them.
-/

namespace Pebble

/-! ### Decimals as texts -/

def Value.spelled : Value → Value
  | decimal d => text d.toText
  | value => value

def Relabelling.spelled : Relabelling := ⟨id, Value.spelled⟩

namespace Record

mutual

def spelled : Record → Record
  | decimal d => text d.toText
  | list items => list (spelledItems items)
  | node kind parts => node kind (spelledParts parts)
  | record => record

def spelledItems : List Record → List Record
  | [] => []
  | item :: items => item.spelled :: spelledItems items

def spelledParts : List (Text × Record) → List (Text × Record)
  | [] => []
  | (name, part) :: parts => (name, part.spelled) :: spelledParts parts

end

end Record

namespace Json

mutual

/-- The record that a JSON value is the value of. An object has its kind in front. -/
def toRecord : Json → Record
  | null => .nil
  | bool b => .bool b
  | integer n => .integer n
  | text t => .text t
  | list items => .list (toRecords items)
  | object ((_, .text kind) :: members) => .node kind (toParts members)
  | object _ => .nil

def toRecords : List Json → List Record
  | [] => []
  | item :: items => item.toRecord :: toRecords items

def toParts : List (Text × Json) → List (Text × Record)
  | [] => []
  | (name, value) :: members => (name, value.toRecord) :: toParts members

end

end Json

namespace Record

mutual

/-- **A record is found again** from its JSON value, with every decimal replaced by its text. -/
lemma toRecord_toJson : ∀ r : Record, r.toJson.toRecord = r.spelled
  | .nil => rfl
  | .bool _ => rfl
  | .integer _ => rfl
  | .decimal _ => rfl
  | .text _ => rfl
  | .list items => congrArg Record.list (toRecords_itemsToJson items)
  | .node kind parts => congrArg (Record.node kind) (toParts_partsToJson parts)

lemma toRecords_itemsToJson :
    ∀ items : List Record, Json.toRecords (itemsToJson items) = spelledItems items
  | [] => rfl
  | item :: items => congrArg₂ List.cons (toRecord_toJson item) (toRecords_itemsToJson items)

lemma toParts_partsToJson :
    ∀ parts : List (Text × Record), Json.toParts (partsToJson parts) = spelledParts parts
  | [] => rfl
  | (name, part) :: parts =>
    congrArg₂ List.cons (congrArg (Prod.mk name) (toRecord_toJson part))
      (toParts_partsToJson parts)

end

lemma spelled_eq_of_toJson_eq {r r' : Record} (h : r.toJson = r'.toJson) :
    r.spelled = r'.spelled := by
  rw [← toRecord_toJson, h, toRecord_toJson]

lemma spelledParts_append (parts others : List (Text × Record)) :
    spelledParts (parts ++ others) = spelledParts parts ++ spelledParts others := by
  induction parts with
  | nil => rfl
  | cons part parts ih => exact congrArg (List.cons _) ih

lemma spelledParts_zip (names : List Text) (values : List Record) :
    spelledParts (names.zip values) = names.zip (spelledItems values) := by
  induction names generalizing values with
  | nil => rfl
  | cons name names ih =>
    cases values with
    | nil => rfl
    | cons value values => exact congrArg (List.cons _) (ih values)

lemma spelled_node (kind : NodeKind) (values : List Record) :
    (kind.node values).spelled = kind.node (spelledItems values) := by
  -- the remark on a field depends only on whether its type name is there, which stays
  have hpresent : ∀ r : Record, r.spelled.isPresent = r.isPresent := by
    intro r
    cases r <;> rfl
  have hremarks : spelledParts (kind.remarks values) = kind.remarks (spelledItems values) := by
    cases kind with
    | field =>
      match values with
      | _ :: typeName :: _ =>
        simp only [NodeKind.remarks, spelledItems, hpresent]
        rfl
      | [_] | [] => rfl
    | _ => rfl
  rw [NodeKind.node, NodeKind.node, spelled, spelledParts_append, spelledParts_zip, hremarks]

/-- The records of some values, each replaced by what is written for it. -/
lemma spelledItems_eq_map (records : List Record) : spelledItems records = records.map spelled := by
  induction records with
  | nil => rfl
  | cons record records ih => rw [spelledItems, ih, List.map_cons]

end Record

lemma Value.record_spelled (value : Value) : value.spelled.record = value.record.spelled := by
  cases value <;> rfl

section Spelled

open Record

mutual

lemma Expr.record_relabel_spelled :
    ∀ e : Expr, (e.relabel .spelled).record = e.record.spelled
  | .literal value => by
    simp only [relabel, Expr.record, spelled_node, spelledItems]
    rw [← Value.record_spelled]
    rfl
  | .group inner => by
    simp only [relabel, Expr.record, spelled_node, spelledItems, record_relabel_spelled inner]
  | .variable name => by
    simp only [relabel, Expr.record, spelled_node, spelledItems]
    rfl
  | .member receiver name => by
    simp only [relabel, Expr.record, spelled_node, spelledItems, record_relabel_spelled receiver]
    rfl
  | .call name arguments => by
    simp only [relabel, Expr.record, spelled_node, spelledItems, records_relabel_spelled arguments]
    rfl
  | .invoke receiver name arguments => by
    simp only [relabel, Expr.record, spelled_node, spelledItems, record_relabel_spelled receiver,
      records_relabel_spelled arguments]
    rfl
  | .binary operator left right => by
    simp only [relabel, Expr.record, Record.binary, spelled_node, spelledItems,
      record_relabel_spelled left, record_relabel_spelled right]
    rfl

lemma Expr.records_relabel_spelled :
    ∀ es : List Expr, Expr.records (relabelAll .spelled es) = spelledItems (Expr.records es)
  | [] => rfl
  | e :: es => by
    rw [relabelAll, Expr.records, Expr.records, spelledItems, record_relabel_spelled e,
      records_relabel_spelled es]

end

lemma Expr.option_relabel_spelled (e : Option Expr) :
    Record.ofOption Expr.record (relabelOption .spelled e) =
      (Record.ofOption Expr.record e).spelled := by
  cases e with
  | none => rfl
  | some e => exact record_relabel_spelled e

mutual

lemma Stmt.record_relabel_spelled :
    ∀ s : Stmt, (s.relabel .spelled).record = s.record.spelled
  | .expression value => by
    simp only [relabel, Stmt.record, spelled_node, spelledItems, value.record_relabel_spelled]
  | .assignment receiver value => by
    simp only [relabel, Stmt.record, spelled_node, spelledItems, value.record_relabel_spelled,
      receiver.record_relabel_spelled]
  | .declaration name value => by
    simp only [relabel, Stmt.record, spelled_node, spelledItems, Expr.option_relabel_spelled value]
    rfl
  | .ifElse condition thenBody elseBody => by
    simp only [relabel, Stmt.record, spelled_node, spelledItems, condition.record_relabel_spelled,
      records_relabel_spelled thenBody, records_relabel_spelled elseBody]
    rfl
  | .forIn name value body => by
    simp only [relabel, Stmt.record, spelled_node, spelledItems, value.record_relabel_spelled,
      records_relabel_spelled body]
    rfl
  | .whileDo condition body => by
    simp only [relabel, Stmt.record, spelled_node, spelledItems, condition.record_relabel_spelled,
      records_relabel_spelled body]
    rfl
  | .return value => by
    simp only [relabel, Stmt.record, spelled_node, spelledItems, value.record_relabel_spelled]

lemma Stmt.records_relabel_spelled :
    ∀ ss : List Stmt, Stmt.records (relabelAll .spelled ss) = spelledItems (Stmt.records ss)
  | [] => rfl
  | s :: ss => by
    rw [relabelAll, Stmt.records, Stmt.records, spelledItems, record_relabel_spelled s,
      records_relabel_spelled ss]

end

lemma Field.record_relabel_spelled (f : Field) :
    (f.relabel .spelled).record = f.record.spelled := by
  have htype : Record.ofOption .text (f.typeName.map Relabelling.spelled.name) =
      (Record.ofOption .text f.typeName).spelled := by
    cases f.typeName <;> rfl
  simp only [relabel, Field.record, spelled_node, spelledItems, Expr.option_relabel_spelled, htype]
  rfl

lemma Method.record_relabel_spelled (m : Method) :
    (m.relabel .spelled).record = m.record.spelled := by
  have hparameters : (m.parameters.map Relabelling.spelled.name).map Record.text =
      spelledItems (m.parameters.map Record.text) := by
    rw [spelledItems_eq_map, List.map_map, List.map_map]
    rfl
  simp only [relabel, Method.record, spelled_node, spelledItems, hparameters,
    Stmt.records_relabel_spelled]
  rfl

lemma Source.record_relabel_spelled (s : Source) :
    (s.relabel .spelled).record = s.record.spelled := by
  have hfields : (s.fields.map (Field.relabel .spelled)).map Field.record =
      spelledItems (s.fields.map Field.record) := by
    rw [spelledItems_eq_map, List.map_map, List.map_map]
    exact List.map_congr_left fun f _ => f.record_relabel_spelled
  have hmethods : (s.methods.map (Method.relabel .spelled)).map Method.record =
      spelledItems (s.methods.map Method.record) := by
    rw [spelledItems_eq_map, List.map_map, List.map_map]
    exact List.map_congr_left fun m _ => m.record_relabel_spelled
  simp only [relabel, Source.record, spelled_node, spelledItems, hfields, hmethods]
  rfl

end Spelled

/-! ### Trees and their records -/

namespace NodeKind

def all : List NodeKind :=
  [source, field, method, expression, assignment, declaration, ifElse, forIn, whileDo, .return,
    literal, group, access, function, binary]

lemma mem_all (kind : NodeKind) : kind ∈ all := by
  cases kind <;> decide

lemma tag_injective : Function.Injective tag := fun kind kind' h =>
  List.inj_on_of_nodup_map (f := tag) (l := all) (by decide) (mem_all kind) (mem_all kind') h

/-- Nodes are told apart by their kinds and their parts. -/
lemma node_inj {kind kind' : NodeKind} {values values' : List Record}
    (h : kind.node values = kind'.node values') (hlength : values.length = kind.parts.length)
    (hlength' : values'.length = kind'.parts.length) : kind = kind' ∧ values = values' := by
  obtain ⟨htag, hparts⟩ := Record.node.inj h
  obtain rfl := tag_injective htag
  have hzip : ∀ {vs : List Record}, vs.length = kind.parts.length →
      ((kind.parts.map Prod.fst).zip vs).map Prod.snd = vs := by
    intro vs hvs
    exact List.map_snd_zip (by simp [hvs])
  obtain ⟨hvalues, -⟩ := List.append_inj hparts (by simp [hlength, hlength'])
  refine ⟨rfl, ?_⟩
  rw [← hzip hlength, hvalues, hzip hlength']

end NodeKind

lemma Value.record_injective : Function.Injective Value.record := by
  intro v v' h
  cases v <;> cases v' <;> simp_all [Value.record]

lemma Expr.record_ne_nil (e : Expr) : e.record ≠ .nil := by
  cases e <;> exact Record.noConfusion

section Injective

open NodeKind

mutual

-- A variable and a member are both accesses, told apart by the receiver, and so are the two calls.
lemma Expr.eq_of_record_eq : ∀ e e' : Expr, e.record = e'.record → e = e'
  | .literal value, e', h => by
    cases e' with
    | literal value' =>
      have hparts := (node_inj h rfl rfl).2
      simp only [List.cons.injEq, and_true] at hparts
      rw [Value.record_injective hparts]
    | _ => cases (node_inj h rfl rfl).1
  | .group inner, e', h => by
    cases e' with
    | group inner' =>
      have hparts := (node_inj h rfl rfl).2
      simp only [List.cons.injEq, and_true] at hparts
      rw [eq_of_record_eq inner inner' hparts]
    | _ => cases (node_inj h rfl rfl).1
  | .variable name, e', h => by
    cases e' with
    | «variable» name' =>
      have hparts := (node_inj h rfl rfl).2
      simp only [List.cons.injEq, and_true, true_and, Record.text.injEq] at hparts
      rw [hparts]
    -- variables and members are of one kind: the first have no receiver
    | member receiver' name' =>
      have hparts := (node_inj h rfl rfl).2
      exact absurd (List.cons.inj hparts).1.symm receiver'.record_ne_nil
    | _ => cases (node_inj h rfl rfl).1
  | .member receiver name, e', h => by
    cases e' with
    | «variable» name' =>
      have hparts := (node_inj h rfl rfl).2
      exact absurd (List.cons.inj hparts).1 receiver.record_ne_nil
    | member receiver' name' =>
      have hparts := (node_inj h rfl rfl).2
      simp only [List.cons.injEq, and_true, Record.text.injEq] at hparts
      rw [eq_of_record_eq receiver receiver' hparts.1, hparts.2]
    | _ => cases (node_inj h rfl rfl).1
  | .call name arguments, e', h => by
    cases e' with
    | call name' arguments' =>
      have hparts := (node_inj h rfl rfl).2
      simp only [List.cons.injEq, and_true, true_and, Record.text.injEq,
        Record.list.injEq] at hparts
      rw [hparts.1, eq_of_records_eq arguments arguments' hparts.2]
    -- so are the calls of functions and of methods
    | invoke receiver' name' arguments' =>
      have hparts := (node_inj h rfl rfl).2
      exact absurd (List.cons.inj hparts).1.symm receiver'.record_ne_nil
    | _ => cases (node_inj h rfl rfl).1
  | .invoke receiver name arguments, e', h => by
    cases e' with
    | call name' arguments' =>
      have hparts := (node_inj h rfl rfl).2
      exact absurd (List.cons.inj hparts).1 receiver.record_ne_nil
    | invoke receiver' name' arguments' =>
      have hparts := (node_inj h rfl rfl).2
      simp only [List.cons.injEq, and_true, Record.text.injEq, Record.list.injEq] at hparts
      rw [eq_of_record_eq receiver receiver' hparts.1, hparts.2.1,
        eq_of_records_eq arguments arguments' hparts.2.2]
    | _ => cases (node_inj h rfl rfl).1
  | .binary operator left right, e', h => by
    cases e' with
    | binary operator' left' right' =>
      have hparts := (node_inj h rfl rfl).2
      simp only [List.cons.injEq, and_true, Record.text.injEq] at hparts
      rw [hparts.1, eq_of_record_eq left left' hparts.2.1, eq_of_record_eq right right' hparts.2.2]
    | _ => cases (node_inj h rfl rfl).1

lemma Expr.eq_of_records_eq : ∀ es es' : List Expr, Expr.records es = Expr.records es' → es = es'
  | [], [], _ => rfl
  | [], _ :: _, h => by cases h
  | _ :: _, [], h => by cases h
  | e :: es, e' :: es', h => by
    simp only [Expr.records, List.cons.injEq] at h
    rw [eq_of_record_eq e e' h.1, eq_of_records_eq es es' h.2]

end

lemma Expr.record_injective : Function.Injective Expr.record := fun e e' => eq_of_record_eq e e'

lemma Record.ofOption_injective {α : Type} {record : α → Record} (h : Function.Injective record)
    (hne : ∀ a, record a ≠ .nil) : Function.Injective (ofOption record) := by
  intro a a' heq
  cases a with
  | none =>
    cases a' with
    | none => rfl
    | some a' => exact absurd heq.symm (hne a')
  | some a =>
    cases a' with
    | none => exact absurd heq (hne a)
    | some a' => rw [h heq]

lemma Expr.option_injective : Function.Injective (Record.ofOption Expr.record) :=
  Record.ofOption_injective record_injective record_ne_nil

mutual

lemma Stmt.eq_of_record_eq : ∀ s s' : Stmt, s.record = s'.record → s = s'
  | .expression value, s', h => by
    cases s' with
    | expression value' =>
      have hparts := (node_inj h rfl rfl).2
      simp only [List.cons.injEq, and_true] at hparts
      rw [Expr.record_injective hparts]
    | _ => cases (node_inj h rfl rfl).1
  | .assignment receiver value, s', h => by
    cases s' with
    | assignment receiver' value' =>
      have hparts := (node_inj h rfl rfl).2
      simp only [List.cons.injEq, and_true] at hparts
      rw [Expr.record_injective hparts.1, Expr.record_injective hparts.2]
    | _ => cases (node_inj h rfl rfl).1
  | .declaration name value, s', h => by
    cases s' with
    | declaration name' value' =>
      have hparts := (node_inj h rfl rfl).2
      simp only [List.cons.injEq, and_true, Record.text.injEq] at hparts
      rw [hparts.1, Expr.option_injective hparts.2]
    | _ => cases (node_inj h rfl rfl).1
  | .ifElse condition thenBody elseBody, s', h => by
    cases s' with
    | ifElse condition' thenBody' elseBody' =>
      have hparts := (node_inj h rfl rfl).2
      simp only [List.cons.injEq, and_true, Record.list.injEq] at hparts
      rw [Expr.record_injective hparts.1, eq_of_records_eq thenBody thenBody' hparts.2.1,
        eq_of_records_eq elseBody elseBody' hparts.2.2]
    | _ => cases (node_inj h rfl rfl).1
  | .forIn name value body, s', h => by
    cases s' with
    | forIn name' value' body' =>
      have hparts := (node_inj h rfl rfl).2
      simp only [List.cons.injEq, and_true, Record.text.injEq, Record.list.injEq] at hparts
      rw [hparts.1, Expr.record_injective hparts.2.1, eq_of_records_eq body body' hparts.2.2]
    | _ => cases (node_inj h rfl rfl).1
  | .whileDo condition body, s', h => by
    cases s' with
    | whileDo condition' body' =>
      have hparts := (node_inj h rfl rfl).2
      simp only [List.cons.injEq, and_true, Record.list.injEq] at hparts
      rw [Expr.record_injective hparts.1, eq_of_records_eq body body' hparts.2]
    | _ => cases (node_inj h rfl rfl).1
  | .return value, s', h => by
    cases s' with
    | «return» value' =>
      have hparts := (node_inj h rfl rfl).2
      simp only [List.cons.injEq, and_true] at hparts
      rw [Expr.record_injective hparts]
    | _ => cases (node_inj h rfl rfl).1

lemma Stmt.eq_of_records_eq : ∀ ss ss' : List Stmt, Stmt.records ss = Stmt.records ss' → ss = ss'
  | [], [], _ => rfl
  | [], _ :: _, h => by cases h
  | _ :: _, [], h => by cases h
  | s :: ss, s' :: ss', h => by
    simp only [Stmt.records, List.cons.injEq] at h
    rw [eq_of_record_eq s s' h.1, eq_of_records_eq ss ss' h.2]

end

lemma Field.record_injective : Function.Injective Field.record := by
  rintro ⟨name, typeName, value⟩ ⟨name', typeName', value'⟩ h
  have htype : Function.Injective (Record.ofOption Record.text) :=
    Record.ofOption_injective (fun _ _ => Record.text.inj) fun _ => Record.noConfusion
  have hparts := (node_inj h rfl rfl).2
  simp only [List.cons.injEq, and_true, Record.text.injEq] at hparts
  rw [hparts.1, htype hparts.2.1, Expr.option_injective hparts.2.2]

lemma Method.record_injective : Function.Injective Method.record := by
  rintro ⟨name, parameters, body⟩ ⟨name', parameters', body'⟩ h
  have hparts := (node_inj h rfl rfl).2
  simp only [List.cons.injEq, and_true, Record.text.injEq, Record.list.injEq] at hparts
  rw [hparts.1, List.map_injective_iff.mpr (fun _ _ => Record.text.inj) hparts.2.1,
    Stmt.eq_of_records_eq body body' hparts.2.2]

lemma Source.record_injective : Function.Injective Source.record := by
  rintro ⟨fields, methods⟩ ⟨fields', methods'⟩ h
  have hparts := (node_inj h rfl rfl).2
  simp only [List.cons.injEq, and_true, Record.list.injEq] at hparts
  rw [List.map_injective_iff.mpr Field.record_injective hparts.1,
    List.map_injective_iff.mpr Method.record_injective hparts.2]

end Injective

/-- **A tree is told by its JSON value**, but for decimals, which are told as texts. -/
theorem Source.relabel_spelled_eq {s s' : Source} (h : s.record.toJson = s'.record.toJson) :
    s.relabel .spelled = s'.relabel .spelled := by
  refine Source.record_injective ?_
  rw [record_relabel_spelled, record_relabel_spelled]
  exact Record.spelled_eq_of_toJson_eq h

end Pebble

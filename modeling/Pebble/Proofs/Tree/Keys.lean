import Pebble.Proofs.Tree.Shape

/-!
Keys: in each object that is written for a tree the keys differ, so that it says the same with its
members in another order.
-/

namespace Pebble

/-- In each object of a value the keys differ. -/
inductive Json.Distinct : Json → Prop
  | null : Distinct .null
  | bool (b : Bool) : Distinct (.bool b)
  | integer (n : Int) : Distinct (.integer n)
  | text (t : Text) : Distinct (.text t)
  | list {items : List Json} : (∀ item ∈ items, Distinct item) → Distinct (.list items)
  | object {members : List (Text × Json)} : (members.map Prod.fst).Nodup →
    (∀ member ∈ members, Distinct member.2) → Distinct (.object members)

namespace Record

lemma itemsToJson_eq_map (items : List Record) : itemsToJson items = items.map toJson := by
  induction items with
  | nil => rfl
  | cons item items ih => rw [itemsToJson, ih, List.map_cons]

lemma partsToJson_eq_map (parts : List (Text × Record)) :
    partsToJson parts = parts.map fun part => (part.1, part.2.toJson) := by
  induction parts with
  | nil => rfl
  | cons part parts ih =>
    rw [partsToJson, ih]
    rfl

lemma distinct_list {items : List Record} (h : ∀ item ∈ items, item.toJson.Distinct) :
    (list items).toJson.Distinct := by
  rw [toJson, itemsToJson_eq_map]
  exact .list (List.forall_mem_map.mpr h)

/-- The keys of a node are those that its kind has, and these differ. -/
lemma distinct_node (kind : NodeKind) {values : List Record}
    (hlength : values.length = kind.parts.length)
    (h : ∀ value ∈ values, value.toJson.Distinct) : (kind.node values).toJson.Distinct := by
  have hall : ∀ kind ∈ NodeKind.all,
      (kindKey :: (kind.parts.map Prod.fst ++ [typeFlag])).Nodup := by decide
  -- a remark adds at most one key, which is no name of a part
  have hremarks : List.Sublist ((kind.remarks values).map Prod.fst) [typeFlag] ∧
      ∀ remark ∈ kind.remarks values, remark.2.toJson.Distinct := by
    unfold NodeKind.remarks
    split
    · exact ⟨List.Sublist.refl _, by simpa using .bool _⟩
    · exact ⟨List.nil_sublist _, List.forall_mem_nil _⟩
  rw [NodeKind.node, toJson, partsToJson_eq_map]
  refine .object ?_ (List.forall_mem_cons.mpr ⟨.text _, List.forall_mem_map.mpr ?_⟩)
  · have hnames : ((kind.parts.map Prod.fst).zip values).map Prod.fst = kind.parts.map Prod.fst :=
      List.map_fst_zip (by simp [hlength])
    have hkeys : List.Sublist
        (((kind.parts.map Prod.fst).zip values).map Prod.fst ++ (kind.remarks values).map Prod.fst)
        (kind.parts.map Prod.fst ++ [typeFlag]) := by
      rw [hnames]
      exact (List.Sublist.refl _).append hremarks.1
    rw [← List.map_append] at hkeys
    refine (hall kind kind.mem_all).sublist ?_
    rw [List.map_cons, List.map_map]
    exact hkeys.cons_cons kindKey
  · refine List.forall_mem_append.mpr ⟨fun part hpart => ?_, hremarks.2⟩
    exact h _ (List.of_mem_zip hpart).2

lemma Shaped.distinct {r : Record} (h : r.Shaped) : r.toJson.Distinct := by
  induction h with
  | @atom r h =>
    cases r with
    | nil => exact .null
    | bool b => exact .bool b
    | integer n => exact .integer n
    | decimal d => exact .text _
    | text t => exact .text t
    | list items => exact h.elim
    | node kind parts => exact h.elim
  | list _ ih => exact distinct_list ih
  | node kind hlength _ ih => exact distinct_node kind hlength ih

end Record

end Pebble

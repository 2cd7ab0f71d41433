import Mathlib.Algebra.Field.Rat
import Mathlib.Tactic.NormNum
import Pebble.Proofs.Tree.Shape
import Pebble.Tree.Equality

/-!
Data: what a record says, with numbers as rational numbers and with nodes as dictionaries, in which
no part comes before another one. Two records of trees are equal just if they say the same.
-/

namespace Pebble

/-! ### Numbers -/

namespace Scaled

def value (a : Scaled) : ℚ := a.mantissa * 10 ^ a.exponent

lemma value_eq_mantissaAt (a : Scaled) {exponent : Int} (h : exponent ≤ a.exponent) :
    a.value = a.mantissaAt exponent * 10 ^ exponent := by
  have hexponent : a.exponent = (a.exponent - exponent).toNat + exponent := by omega
  calc a.value
      = a.mantissa * 10 ^ ((a.exponent - exponent).toNat + exponent) := by
        rw [value, ← hexponent]
    _ = a.mantissa * (10 ^ (a.exponent - exponent).toNat * 10 ^ exponent) := by
        rw [zpow_add₀ (by norm_num), zpow_natCast]
    _ = a.mantissaAt exponent * 10 ^ exponent := by
        rw [mantissaAt, Nat.pow_eq, Int.cast_mul, Int.cast_natCast, Nat.cast_pow, Nat.cast_ofNat,
          mul_assoc]

/-- To be brought to one exponent is to be compared exactly. -/
lemma alike_iff (a b : Scaled) : a.alike b ↔ a.value = b.value := by
  have hpower : ∀ exponent : Int, (10 : ℚ) ^ exponent ≠ 0 := fun exponent =>
    zpow_ne_zero exponent (by norm_num)
  rw [alike]
  split
  · next h =>
    rw [beq_iff_eq, value, value_eq_mantissaAt b h, mul_left_inj' (hpower _), Int.cast_inj]
  · next h =>
    have hb : b.value = b.mantissa * 10 ^ b.exponent := rfl
    rw [beq_iff_eq, value_eq_mantissaAt a (not_le.1 h).le, hb, mul_left_inj' (hpower _),
      Int.cast_inj]

end Scaled

/-! ### Data -/

/-- What plain data say. A dictionary is what is found in it under each key. -/
inductive Datum where
  | nil
  | number (value : ℚ)
  | infinite (negative : Bool)
  | undefined
  | text (t : Text)
  | list (items : List Datum)
  | dict (get : Text → Option Datum)

def Decimal.datum : Decimal → Datum
  | finite negative coefficient exponent =>
    .number (Numeral.signed negative coefficient * 10 ^ exponent)
  | infinite negative => .infinite negative
  | nan _ _ _ => .undefined

namespace Record

mutual

/-- What a record says. A node's kind is found under a key of its own. -/
def datum : Record → Datum
  | nil => .nil
  | bool b => .number (if b then 1 else 0)
  | integer n => .number n
  | decimal d => d.datum
  | text t => .text t
  | list items => .list (itemsDatum items)
  | node kind parts =>
    .dict fun key => if key = kindKey then some (.text kind) else partsDatum parts key

def itemsDatum : List Record → List Datum
  | [] => []
  | item :: items => item.datum :: itemsDatum items

def partsDatum : List (Text × Record) → Text → Option Datum
  | [], _ => none
  | (name, part) :: parts, key => if key = name then some part.datum else partsDatum parts key

end

mutual

/-- No decimal in a record is one that is no number. -/
def Comparable : Record → Prop
  | decimal (.nan _ _ _) => False
  | list items => ItemsComparable items
  | node _ parts => PartsComparable parts
  | _ => True

def ItemsComparable : List Record → Prop
  | [] => True
  | item :: items => item.Comparable ∧ ItemsComparable items

def PartsComparable : List (Text × Record) → Prop
  | [] => True
  | (_, part) :: parts => part.Comparable ∧ PartsComparable parts

end

/-! ### Values -/

section Atoms

variable {r r' : Record} {x y : Scaled}

/-- What counts as a number is a truth value, an integer or a finite decimal. -/
lemma cases_of_scaled? (h : r.scaled? = some x) :
    (∃ b, r = bool b) ∨ (∃ n, r = integer n) ∨
      ∃ negative coefficient exponent, r = decimal (.finite negative coefficient exponent) := by
  cases r with
  | bool b => exact .inl ⟨b, rfl⟩
  | integer n => exact .inr (.inl ⟨n, rfl⟩)
  | decimal d =>
    cases d with
    | finite negative coefficient exponent => exact .inr (.inr ⟨_, _, _, rfl⟩)
    | infinite negative => cases h
    | nan negative signaling payload => cases h
  | _ => cases h

lemma datum_of_scaled? (h : r.scaled? = some x) : r.datum = .number x.value := by
  obtain ⟨b, rfl⟩ | ⟨n, rfl⟩ | ⟨negative, coefficient, exponent, rfl⟩ := cases_of_scaled? h <;>
    cases h
  · cases b <;> simp [datum, Scaled.value, Scaled.ofBool]
  · simp [datum, Scaled.value]
  · rfl

lemma alike_of_scaled? (hx : r.scaled? = some x) (hy : r'.scaled? = some y) :
    r.alike r' = x.alike y := by
  obtain ⟨b, rfl⟩ | ⟨n, rfl⟩ | ⟨negative, coefficient, exponent, rfl⟩ := cases_of_scaled? hx <;>
    obtain ⟨b', rfl⟩ | ⟨n', rfl⟩ | ⟨negative', coefficient', exponent', rfl⟩ :=
      cases_of_scaled? hy <;>
    cases hx <;> cases hy <;> rfl

/-- What is no number is not equal to a number, and does not say what a number says. -/
lemma of_scaled?_eq_none (hx : r.scaled? = some x) (hr' : r'.scaled? = none) :
    r.alike r' = false ∧ ∀ q, r'.datum ≠ .number q := by
  obtain ⟨b, rfl⟩ | ⟨n, rfl⟩ | ⟨negative, coefficient, exponent, rfl⟩ := cases_of_scaled? hx <;>
    cases r' with
    | bool b' => cases hr'
    | integer n' => cases hr'
    | decimal d' =>
      cases d' with
      | finite negative' coefficient' exponent' => cases hr'
      | infinite negative' => exact ⟨rfl, nofun⟩
      | nan negative' signaling payload => exact ⟨rfl, nofun⟩
    | _ => exact ⟨rfl, nofun⟩

/-- A number is equal to what says the same number. -/
lemma alike_number_iff (hx : r.scaled? = some x) : r.alike r' ↔ r.datum = r'.datum := by
  rw [datum_of_scaled? hx]
  rcases hy : r'.scaled? with _ | y
  · obtain ⟨hfalse, hne⟩ := of_scaled?_eq_none hx hy
    exact iff_of_false (Bool.eq_false_iff.1 hfalse) (hne _).symm
  · rw [alike_of_scaled? hx hy, datum_of_scaled? hy, Scaled.alike_iff, Datum.number.injEq]

/-- Values are equal just if they say the same. -/
lemma alike_atom_iff (h : r.IsAtom) (hr : r.Comparable) : r.alike r' ↔ r.datum = r'.datum := by
  cases r with
  | nil =>
    cases r' with
    | nil => exact iff_of_true rfl rfl
    | decimal d => cases d <;> exact iff_of_false Bool.false_ne_true nofun
    | _ => exact iff_of_false Bool.false_ne_true nofun
  | text t =>
    cases r' with
    | text t' => simp only [alike, datum, beq_iff_eq, Datum.text.injEq]
    | decimal d => cases d <;> exact iff_of_false Bool.false_ne_true nofun
    | _ => exact iff_of_false Bool.false_ne_true nofun
  -- a truth value and a number are compared by the number that they say
  | bool b => exact alike_number_iff rfl
  | integer n => exact alike_number_iff rfl
  | decimal d =>
    cases d with
    | finite negative coefficient exponent => exact alike_number_iff rfl
    | nan negative signaling payload => exact hr.elim
    | infinite negative =>
      cases r' with
      | decimal d =>
        cases d with
        | infinite negative' =>
          simp only [alike, datum, Decimal.datum, beq_iff_eq, Datum.infinite.injEq]
        | _ => exact iff_of_false Bool.false_ne_true nofun
      | _ => exact iff_of_false Bool.false_ne_true nofun
  | list items => exact h.elim
  | node kind parts => exact h.elim

end Atoms

/-! ### Lists -/

section Lists

variable {items items' : List Record}

lemma itemsDatum_eq_map (items : List Record) : itemsDatum items = items.map datum := by
  induction items with
  | nil => rfl
  | cons item items ih => rw [itemsDatum, ih, List.map_cons]

lemma itemsComparable_iff : ItemsComparable items ↔ ∀ r ∈ items, r.Comparable := by
  induction items with
  | nil => exact iff_of_true trivial (List.forall_mem_nil _)
  | cons item items ih => rw [ItemsComparable, ih, List.forall_mem_cons]

lemma partsComparable_append (parts parts' : List (Text × Record)) :
    PartsComparable (parts ++ parts') ↔ PartsComparable parts ∧ PartsComparable parts' := by
  induction parts with
  | nil => exact (true_and _).symm.to_iff
  | cons part parts ih => rw [List.cons_append, PartsComparable, PartsComparable, ih, and_assoc]

lemma partsComparable_zip {names : List Text} {values : List Record}
    (hlength : values.length = names.length) :
    PartsComparable (names.zip values) ↔ ItemsComparable values := by
  induction names generalizing values with
  | nil =>
    obtain rfl := List.length_eq_zero_iff.1 hlength
    exact Iff.rfl
  | cons name names ih =>
    obtain ⟨value, values, rfl⟩ := List.exists_cons_of_length_eq_add_one hlength
    rw [List.zip_cons_cons, PartsComparable, ItemsComparable,
      ih (Nat.succ.inj hlength)]

/-- Lists are equal just if they say the same, if that holds of their items. -/
lemma itemsAlike_iff
    (h : ∀ r ∈ items, ∀ r' ∈ items', r.alike r' ↔ r.datum = r'.datum) :
    itemsAlike items items' ↔ items.map datum = items'.map datum := by
  induction items generalizing items' with
  | nil => cases items' <;> simp [itemsAlike]
  | cons item items ih =>
    cases items' with
    | nil => simp [itemsAlike]
    | cons item' items' =>
      have hitem := h item List.mem_cons_self item' List.mem_cons_self
      have hitems := ih fun r hr r' hr' =>
        h r (List.mem_cons_of_mem _ hr) r' (List.mem_cons_of_mem _ hr')
      rw [itemsAlike, Bool.and_eq_true, hitem, hitems, List.map_cons, List.map_cons,
        List.cons.injEq]

end Lists

/-! ### Nodes -/

section Nodes

variable {kind kind' : NodeKind} {values values' : List Record}

lemma partsAlike_append {parts parts' : List (Text × Record)}
    (hlength : parts.length = parts'.length) (others others' : List (Text × Record)) :
    partsAlike (parts ++ others) (parts' ++ others') =
      (partsAlike parts parts' && partsAlike others others') := by
  induction parts generalizing parts' with
  | nil =>
    obtain rfl := List.length_eq_zero_iff.1 hlength.symm
    rfl
  | cons part parts ih =>
    obtain ⟨part', parts', rfl⟩ := List.exists_cons_of_length_eq_add_one hlength.symm
    rw [List.cons_append, List.cons_append, partsAlike, partsAlike,
      ih (Nat.succ.inj hlength), Bool.and_assoc _ (partsAlike parts parts')]

lemma partsAlike_zip {names : List Text} (hlength : values.length = names.length)
    (hlength' : values'.length = names.length) :
    partsAlike (names.zip values) (names.zip values') = itemsAlike values values' := by
  induction names generalizing values values' with
  | nil =>
    obtain rfl := List.length_eq_zero_iff.1 hlength
    obtain rfl := List.length_eq_zero_iff.1 hlength'
    rfl
  | cons name names ih =>
    obtain ⟨value, values, rfl⟩ := List.exists_cons_of_length_eq_add_one hlength
    obtain ⟨value', values', rfl⟩ := List.exists_cons_of_length_eq_add_one hlength'
    rw [List.zip_cons_cons, List.zip_cons_cons, partsAlike, itemsAlike, beq_self_eq_true,
      Bool.true_and, ih (Nat.succ.inj hlength) (Nat.succ.inj hlength')]

lemma alike_nil_iff (r : Record) : r.alike nil ↔ r = nil := by
  cases r with
  | nil => exact iff_of_true rfl rfl
  | decimal d => cases d <;> exact iff_of_false Bool.false_ne_true nofun
  | _ => exact iff_of_false Bool.false_ne_true nofun

lemma nil_alike_iff (r : Record) : nil.alike r ↔ r = nil := by
  cases r with
  | nil => exact iff_of_true rfl rfl
  | decimal d => cases d <;> exact iff_of_false Bool.false_ne_true nofun
  | _ => exact iff_of_false Bool.false_ne_true nofun

lemma isPresent_congr {r r' : Record} (h : r = nil ↔ r' = nil) : r.isPresent = r'.isPresent := by
  have hpresent : ∀ r : Record, r.isPresent = true ↔ r ≠ nil := by
    intro r
    cases r <;> simp [isPresent]
  rw [Bool.eq_iff_iff, hpresent, hpresent]
  exact not_congr h

lemma isPresent_eq_of_alike {r r' : Record} (h : r.alike r') : r.isPresent = r'.isPresent := by
  refine isPresent_congr ⟨?_, ?_⟩
  · rintro rfl
    exact (nil_alike_iff r').1 h
  · rintro rfl
    exact (alike_nil_iff r).1 h

lemma remarks_alike (kind : NodeKind) (h : itemsAlike values values') :
    partsAlike (kind.remarks values) (kind.remarks values') := by
  cases kind with
  -- only a field is remarked upon, by whether its second part is there
  | field =>
    match values, values' with
    | [], [] | [_], [_] => rfl
    | [], _ :: _ | _ :: _, [] => cases h
    | [_], _ :: _ :: _ | _ :: _ :: _, [_] => simp [itemsAlike] at h
    | name :: typeName :: rest, name' :: typeName' :: rest' =>
      simp only [itemsAlike, Bool.and_eq_true] at h
      have hpresent : typeName.isPresent = typeName'.isPresent := isPresent_eq_of_alike h.2.1
      rw [NodeKind.remarks, NodeKind.remarks, hpresent]
      cases typeName'.isPresent <;> decide
  | _ => rfl

/-- Nodes are equal if they are of one kind and their parts are equal. -/
lemma alike_node (hlength : values.length = kind.parts.length)
    (hlength' : values'.length = kind'.parts.length) :
    (kind.node values).alike (kind'.node values') ↔ kind = kind' ∧ itemsAlike values values' := by
  rw [NodeKind.node, NodeKind.node, alike, Bool.and_eq_true, beq_iff_eq,
    NodeKind.tag_injective.eq_iff]
  refine and_congr_right fun hkind => ?_
  subst hkind
  have hnames : ∀ {vs : List Record}, vs.length = kind.parts.length →
      vs.length = (kind.parts.map Prod.fst).length := fun h => h.trans (List.length_map _).symm
  have hzip : ((kind.parts.map Prod.fst).zip values).length =
      ((kind.parts.map Prod.fst).zip values').length := by
    rw [List.length_zip, List.length_zip, hlength, hlength']
  rw [partsAlike_append hzip, partsAlike_zip (hnames hlength) (hnames hlength'), Bool.and_eq_true]
  exact and_iff_left_of_imp (remarks_alike kind)

lemma datum_eq_nil_iff (r : Record) : r.datum = .nil ↔ r = nil := by
  cases r with
  | nil => exact iff_of_true rfl rfl
  | decimal d => cases d <;> exact iff_of_false nofun nofun
  | _ => exact iff_of_false nofun nofun

lemma isPresent_eq_of_datum_eq {r r' : Record} (h : r.datum = r'.datum) :
    r.isPresent = r'.isPresent :=
  isPresent_congr (by rw [← datum_eq_nil_iff, ← datum_eq_nil_iff, h])

lemma partsDatum_remarks (kind : NodeKind) (h : values.map datum = values'.map datum) :
    partsDatum (kind.remarks values) = partsDatum (kind.remarks values') := by
  cases kind with
  | field =>
    match values, values' with
    | [], [] | [_], [_] => rfl
    | [], _ :: _ | _ :: _, [] => cases h
    | [_], _ :: _ :: _ | _ :: _ :: _, [_] => simp at h
    | name :: typeName :: rest, name' :: typeName' :: rest' =>
      simp only [List.map_cons, List.cons.injEq] at h
      rw [NodeKind.remarks, NodeKind.remarks, isPresent_eq_of_datum_eq h.2.1]
  | _ => rfl

/-- Parts under the same names say the same, each under its name. -/
lemma partsDatum_zip_congr {names : List Text} {others others' : List (Text × Record)}
    (h : values.map datum = values'.map datum) (hothers : partsDatum others = partsDatum others') :
    partsDatum (names.zip values ++ others) = partsDatum (names.zip values' ++ others') := by
  induction names generalizing values values' with
  | nil => exact hothers
  | cons name names ih =>
    match values, values' with
    | [], [] => exact hothers
    | [], _ :: _ | _ :: _, [] => cases h
    | value :: values, value' :: values' =>
      simp only [List.map_cons, List.cons.injEq] at h
      funext key
      rw [List.zip_cons_cons, List.zip_cons_cons, List.cons_append, List.cons_append, partsDatum,
        partsDatum, h.1, ih h.2]

/-- If what is found under each of some different names is the same, the parts say the same. -/
lemma map_datum_eq {names : List Text} (hnames : names.Nodup)
    (hlength : values.length = names.length) (hlength' : values'.length = names.length)
    (others others' : List (Text × Record))
    (h : ∀ key ∈ names, partsDatum (names.zip values ++ others) key =
      partsDatum (names.zip values' ++ others') key) :
    values.map datum = values'.map datum := by
  induction names generalizing values values' with
  | nil => rw [List.length_eq_zero_iff.1 hlength, List.length_eq_zero_iff.1 hlength']
  | cons name names ih =>
    obtain ⟨value, values, rfl⟩ := List.exists_cons_of_length_eq_add_one hlength
    obtain ⟨value', values', rfl⟩ := List.exists_cons_of_length_eq_add_one hlength'
    obtain ⟨hname, hnames⟩ := List.nodup_cons.1 hnames
    have hfirst := h name List.mem_cons_self
    -- under the first name is the first value; under any other the first is passed over
    simp only [List.zip_cons_cons, List.cons_append, partsDatum, if_true, Option.some_inj] at hfirst
    have hrest : values.map datum = values'.map datum := by
      refine ih hnames (Nat.succ.inj hlength) (Nat.succ.inj hlength') fun key hkey => ?_
      have hne : key ≠ name := fun heq => hname (heq ▸ hkey)
      have hfound := h key (List.mem_cons_of_mem _ hkey)
      rwa [List.zip_cons_cons, List.zip_cons_cons, List.cons_append, List.cons_append, partsDatum,
        partsDatum, if_neg hne, if_neg hne] at hfound
    rw [List.map_cons, List.map_cons, hfirst, hrest]

/-- Nodes say the same just if they are of one kind and their parts say the same. -/
lemma datum_node_eq_iff (hlength : values.length = kind.parts.length)
    (hlength' : values'.length = kind'.parts.length) :
    (kind.node values).datum = (kind'.node values').datum ↔
      kind = kind' ∧ values.map datum = values'.map datum := by
  -- the names of the parts of a node differ, also from the one of its kind
  have hkeys : ∀ kind ∈ NodeKind.all, (kindKey :: kind.parts.map Prod.fst).Nodup := by decide
  constructor
  · intro h
    rw [NodeKind.node, NodeKind.node, datum, datum, Datum.dict.injEq] at h
    have htag := congrFun h kindKey
    simp only [if_true, Option.some_inj, Datum.text.injEq] at htag
    obtain rfl := NodeKind.tag_injective htag
    obtain ⟨hkind, hnodup⟩ := List.nodup_cons.1 (hkeys kind kind.mem_all)
    refine ⟨rfl, map_datum_eq hnodup (hlength.trans (List.length_map _).symm)
      (hlength'.trans (List.length_map _).symm) (kind.remarks values) (kind.remarks values')
      fun key hkey => ?_⟩
    have hne : key ≠ kindKey := fun heq => hkind (heq ▸ hkey)
    have hfound := congrFun h key
    rwa [if_neg hne, if_neg hne] at hfound
  · rintro ⟨rfl, h⟩
    rw [NodeKind.node, NodeKind.node, datum, datum,
      partsDatum_zip_congr h (partsDatum_remarks kind h)]

lemma comparable_node (hlength : values.length = kind.parts.length)
    (h : (kind.node values).Comparable) : ∀ r ∈ values, r.Comparable := by
  rw [NodeKind.node, Comparable, partsComparable_append,
    partsComparable_zip (hlength.trans (List.length_map _).symm), itemsComparable_iff] at h
  exact h.1

end Nodes

/-- A list or a node is equal to no value, and does not say what a value says. -/
lemma alike_atom_right {r r' : Record} (h : ¬ r.IsAtom) (h' : r'.IsAtom) :
    r.alike r' ↔ r.datum = r'.datum := by
  cases r with
  | list items =>
    cases r' with
    | list items' => exact h'.elim
    | node kind' parts' => exact h'.elim
    | decimal d => cases d <;> exact iff_of_false Bool.false_ne_true nofun
    | _ => exact iff_of_false Bool.false_ne_true nofun
  | node kind parts =>
    cases r' with
    | list items' => exact h'.elim
    | node kind' parts' => exact h'.elim
    | decimal d => cases d <;> exact iff_of_false Bool.false_ne_true nofun
    | _ => exact iff_of_false Bool.false_ne_true nofun
  | _ => exact absurd trivial h

/-- **Records of trees are equal just if they say the same**, with numbers as rational numbers and
nodes as dictionaries. -/
theorem Shaped.alike_iff {r r' : Record} (h : r.Shaped) (h' : r'.Shaped) (hr : r.Comparable) :
    r.alike r' ↔ r.datum = r'.datum := by
  induction h generalizing r' with
  | atom h => exact alike_atom_iff h hr
  -- what is alike in its parts is alike, and what is of another shape is not alike
  | @list items h ih =>
    have hitems := itemsComparable_iff.1 hr
    cases h' with
    | atom h' => exact alike_atom_right id h'
    | list h' =>
      rw [alike, itemsAlike_iff fun r hmem r' hmem' => ih r hmem (h' r' hmem') (hitems r hmem),
        datum, datum, itemsDatum_eq_map, itemsDatum_eq_map, Datum.list.injEq]
    | node kind' hlength' h' => exact iff_of_false Bool.false_ne_true nofun
  | @node kind values hlength h ih =>
    have hvalues := comparable_node hlength hr
    cases h' with
    | atom h' => exact alike_atom_right id h'
    | list h' => exact iff_of_false Bool.false_ne_true nofun
    | node kind' hlength' h' =>
      rw [alike_node hlength hlength', datum_node_eq_iff hlength hlength',
        itemsAlike_iff fun r hmem r' hmem' => ih r hmem (h' r' hmem') (hvalues r hmem)]

end Record

end Pebble

import Mathlib.Tactic.Lemma
import Pebble.Grammar.Source

/-!
Relabelling: trees with other names and other values at the same places.
-/

namespace Pebble

/-- What is put in the place of names and of values. -/
structure Relabelling where
  name : Text → Text
  value : Value → Value

namespace Relabelling

def same : Relabelling := ⟨id, id⟩

@[simp] lemma same_name : same.name = id := rfl

@[simp] lemma same_value : same.value = id := rfl

end Relabelling

namespace Expr

mutual

def relabel (w : Relabelling) : Expr → Expr
  | literal v => literal (w.value v)
  | group e => group (e.relabel w)
  | «variable» name => «variable» (w.name name)
  | member receiver name => member (receiver.relabel w) (w.name name)
  | call name arguments => call (w.name name) (relabelAll w arguments)
  | invoke receiver name arguments =>
    invoke (receiver.relabel w) (w.name name) (relabelAll w arguments)
  | binary operator left right => binary operator (left.relabel w) (right.relabel w)

def relabelAll (w : Relabelling) : List Expr → List Expr
  | [] => []
  | e :: es => e.relabel w :: relabelAll w es

end

lemma relabelAll_eq (w : Relabelling) (es : List Expr) : relabelAll w es = es.map (relabel w) := by
  induction es with
  | nil => rw [relabelAll, List.map_nil]
  | cons e es ih => rw [relabelAll, ih, List.map_cons]

mutual

@[simp] lemma relabel_same : ∀ e : Expr, e.relabel .same = e
  | literal v => by simp [relabel]
  | group e => by simp [relabel, relabel_same e]
  | «variable» name => by simp [relabel]
  | member receiver name => by simp [relabel, relabel_same receiver]
  | call name arguments => by simp [relabel, relabelAll_same arguments]
  | invoke receiver name arguments => by
    simp [relabel, relabel_same receiver, relabelAll_same arguments]
  | binary operator left right => by simp [relabel, relabel_same left, relabel_same right]

@[simp] lemma relabelAll_same : ∀ es : List Expr, relabelAll .same es = es
  | [] => by simp [relabelAll]
  | e :: es => by simp [relabelAll, relabel_same e, relabelAll_same es]

end

def relabelOption (w : Relabelling) (e : Option Expr) : Option Expr := e.map (relabel w)

def relabelLinks (w : Relabelling) (links : List (Text × Expr)) : List (Text × Expr) :=
  links.map fun link => (link.1, link.2.relabel w)

lemma relabel_fold (w : Relabelling) (side : Associativity) (first : Expr)
    (links : List (Text × Expr)) :
    (side.fold .binary first links).relabel w =
      side.fold .binary (first.relabel w) (relabelLinks w links) := by
  induction links generalizing first with
  | nil => cases side <;> rfl
  | cons link links ih =>
    cases side with
    | right => exact congrArg (binary link.1 (first.relabel w)) (ih link.2)
    | left =>
      have h := ih (.binary link.1 first link.2)
      simp only [relabel] at h
      exact h

end Expr

namespace Stmt

mutual

def relabel (w : Relabelling) : Stmt → Stmt
  | expression e => expression (e.relabel w)
  | assignment receiver value => assignment (receiver.relabel w) (value.relabel w)
  | declaration name value => declaration (w.name name) (Expr.relabelOption w value)
  | ifElse condition thenBody elseBody =>
    ifElse (condition.relabel w) (relabelAll w thenBody) (relabelAll w elseBody)
  | forIn name value body => forIn (w.name name) (value.relabel w) (relabelAll w body)
  | whileDo condition body => whileDo (condition.relabel w) (relabelAll w body)
  | «return» value => «return» (value.relabel w)

def relabelAll (w : Relabelling) : List Stmt → List Stmt
  | [] => []
  | s :: ss => s.relabel w :: relabelAll w ss

end

lemma relabelAll_eq (w : Relabelling) (ss : List Stmt) : relabelAll w ss = ss.map (relabel w) := by
  induction ss with
  | nil => rw [relabelAll, List.map_nil]
  | cons s ss ih => rw [relabelAll, ih, List.map_cons]

end Stmt

@[simp] lemma Expr.relabelOption_same (e : Option Expr) : Expr.relabelOption .same e = e := by
  cases e <;> simp [relabelOption]

namespace Stmt

mutual

@[simp] lemma relabel_same : ∀ s : Stmt, s.relabel .same = s
  | expression e => by simp [relabel]
  | assignment receiver value => by simp [relabel]
  | declaration name value => by simp [relabel]
  | ifElse condition thenBody elseBody => by
    simp [relabel, relabelAll_same thenBody, relabelAll_same elseBody]
  | forIn name value body => by simp [relabel, relabelAll_same body]
  | whileDo condition body => by simp [relabel, relabelAll_same body]
  | «return» value => by simp [relabel]

@[simp] lemma relabelAll_same : ∀ ss : List Stmt, relabelAll .same ss = ss
  | [] => by simp [relabelAll]
  | s :: ss => by simp [relabelAll, relabel_same s, relabelAll_same ss]

end

end Stmt

def Field.relabel (w : Relabelling) (f : Field) : Field where
  name := w.name f.name
  typeName := f.typeName.map w.name
  value := Expr.relabelOption w f.value

def Method.relabel (w : Relabelling) (m : Method) : Method where
  name := w.name m.name
  parameters := m.parameters.map w.name
  body := Stmt.relabelAll w m.body

def Source.relabel (w : Relabelling) (s : Source) : Source where
  fields := s.fields.map (Field.relabel w)
  methods := s.methods.map (Method.relabel w)

@[simp] lemma Field.relabel_same (f : Field) : f.relabel .same = f := by
  simp [relabel]

@[simp] lemma Method.relabel_same (m : Method) : m.relabel .same = m := by
  simp [relabel]

@[simp] lemma Source.relabel_same (s : Source) : s.relabel .same = s := by
  have hfields : Field.relabel .same = id := funext Field.relabel_same
  have hmethods : Method.relabel .same = id := funext Method.relabel_same
  simp [relabel, hfields, hmethods]

end Pebble

import Pebble.Proofs.Grammar.Derivation
import Pebble.Proofs.Tree.Proper

/-!
Flat trees, in which a chain is one node with all its operators and operands, to whatever side it
was folded.
-/

namespace Pebble

/-- What a node of a flat tree is, apart from its parts. -/
inductive Label where
  | literal (value : Value)
  | group
  | variable (name : Text)
  | member (name : Text)
  | call (name : Text)
  | invoke (name : Text)
  | chain (operators : List Text)
  | expression
  | assignment
  | declaration (name : Text)
  | ifElse
  | forIn (name : Text)
  | whileDo
  | return
  | field (name : Text) (typeName : Option Text)
  | method (name : Text) (parameters : List Text)
  | list
  deriving DecidableEq, Repr

inductive Flat where
  | node (label : Label) (parts : List Flat)
  deriving Repr

namespace Flat

/-- The operators and the operands of a tree as a chain of a level. What is no chain of this level
is an operand by itself. -/
def spine (level : Option Level) : Flat → List Text × List Flat
  | node (.chain (operator :: operators)) operands =>
    if Level.of? operator = level then (operator :: operators, operands)
    else ([], [node (.chain (operator :: operators)) operands])
  | f => ([], [f])

/-- Puts an operator between two trees. The chain goes on in the tree on the side to which chains
fold. -/
def join (side : Associativity) (operator : Text) (left right : Flat) : Flat :=
  match side with
  | .right =>
    let (operators, operands) := right.spine (Level.of? operator)
    node (.chain (operator :: operators)) (left :: operands)
  | .left =>
    let (operators, operands) := left.spine (Level.of? operator)
    node (.chain (operators ++ [operator])) (operands ++ [right])

section

variable {level : Option Level} {f left right : Flat} {operator : Text} {operators : List Text}
  {operands : List Flat}

/-- A tree with operators in its spine is the chain of them. -/
lemma eq_of_spine (h : f.spine level = (operators, operands)) (hne : operators ≠ []) :
    f = node (.chain operators) operands := by
  unfold spine at h
  split at h
  · split_ifs at h
    · obtain ⟨rfl, rfl⟩ := Prod.mk.inj h
      rfl
    · exact absurd (Prod.mk.inj h).1.symm hne
  · exact absurd (Prod.mk.inj h).1.symm hne

lemma of?_of_spine (h : f.spine level = (operator :: operators, operands)) :
    Level.of? operator = level := by
  unfold spine at h
  split at h
  · split_ifs at h with hlevel
    · obtain ⟨heq, -⟩ := Prod.mk.inj h
      rwa [(List.cons.inj heq).1] at hlevel
    · cases (Prod.mk.inj h).1
  · cases (Prod.mk.inj h).1

lemma spine_chain :
    (node (.chain (operator :: operators)) operands).spine level =
      if Level.of? operator = level then (operator :: operators, operands)
      else ([], [node (.chain (operator :: operators)) operands]) := rfl

lemma join_left (h : left.spine (Level.of? operator) = (operators, operands)) :
    join .left operator left right =
      node (.chain (operators ++ [operator])) (operands ++ [right]) := by
  simp only [join, h]

lemma spine_join_right (h : Level.of? operator = level) :
    (join .right operator left right).spine level =
      (operator :: (right.spine level).1, left :: (right.spine level).2) := by
  subst h
  simp [join, spine]

lemma spine_join_left (h : Level.of? operator = level) :
    (join .left operator left right).spine level =
      ((left.spine level).1 ++ [operator], (left.spine level).2 ++ [right]) := by
  subst h
  rcases hspine : left.spine (Level.of? operator) with ⟨_ | ⟨first, others⟩, operands⟩
  · rw [join_left hspine, List.nil_append, spine_chain, if_pos rfl]
  · rw [join_left hspine, List.cons_append, spine_chain, if_pos (of?_of_spine hspine)]

/-- Within a chain of another level, a chain is an operand. -/
lemma spine_join_of_ne (side : Associativity) (h : Level.of? operator ≠ level) :
    (join side operator left right).spine level = ([], [join side operator left right]) := by
  cases side with
  | right => simp [join, spine, h]
  | left =>
    rcases hspine : left.spine (Level.of? operator) with ⟨_ | ⟨first, others⟩, operands⟩
    · rw [join_left hspine, List.nil_append, spine_chain, if_neg h]
    · have hfirst : Level.of? first ≠ level := of?_of_spine hspine ▸ h
      rw [join_left hspine, List.cons_append, spine_chain, if_neg hfirst]

end

end Flat

/-! ### Flattening -/

mutual

/-- The flat tree of an expression whose chains are folded to a side. -/
@[simp]
def Expr.flatten (side : Associativity) : Expr → Flat
  | .literal v => .node (.literal v) []
  | .group inner => .node .group [inner.flatten side]
  | .variable name => .node (.variable name) []
  | .member receiver name => .node (.member name) [receiver.flatten side]
  | .call name arguments => .node (.call name) (Expr.flattenAll side arguments)
  | .invoke receiver name arguments =>
    .node (.invoke name) (receiver.flatten side :: Expr.flattenAll side arguments)
  | .binary operator left right =>
    Flat.join side operator (left.flatten side) (right.flatten side)

def Expr.flattenAll (side : Associativity) : List Expr → List Flat
  | [] => []
  | e :: es => e.flatten side :: Expr.flattenAll side es

end

lemma Expr.flattenAll_eq_map (side : Associativity) (es : List Expr) :
    Expr.flattenAll side es = es.map (Expr.flatten side) := by
  induction es with
  | nil => simp [Expr.flattenAll]
  | cons e es ih => simp [Expr.flattenAll, ih]

def Expr.flattenOption (side : Associativity) : Option Expr → List Flat
  | none => []
  | some e => [e.flatten side]

mutual

@[simp]
def Stmt.flatten (side : Associativity) : Stmt → Flat
  | .expression v => .node .expression [v.flatten side]
  | .assignment receiver v => .node .assignment [receiver.flatten side, v.flatten side]
  | .declaration name v => .node (.declaration name) (Expr.flattenOption side v)
  | .ifElse condition thenBody elseBody =>
    .node .ifElse [condition.flatten side, .node .list (Stmt.flattenAll side thenBody),
      .node .list (Stmt.flattenAll side elseBody)]
  | .forIn name v body =>
    .node (.forIn name) [v.flatten side, .node .list (Stmt.flattenAll side body)]
  | .whileDo condition body =>
    .node .whileDo [condition.flatten side, .node .list (Stmt.flattenAll side body)]
  | .return v => .node .return [v.flatten side]

def Stmt.flattenAll (side : Associativity) : List Stmt → List Flat
  | [] => []
  | s :: body => s.flatten side :: Stmt.flattenAll side body

end

lemma Stmt.flattenAll_eq_map (side : Associativity) (body : List Stmt) :
    Stmt.flattenAll side body = body.map (Stmt.flatten side) := by
  induction body with
  | nil => simp [Stmt.flattenAll]
  | cons s body ih => simp [Stmt.flattenAll, ih]

def Field.flatten (side : Associativity) (f : Field) : Flat :=
  .node (.field f.name f.typeName) (Expr.flattenOption side f.value)

def Method.flatten (side : Associativity) (m : Method) : Flat :=
  .node (.method m.name m.parameters) (Stmt.flattenAll side m.body)

def Source.flatten (side : Associativity) (s : Source) : Flat :=
  .node .list [.node .list (s.fields.map (Field.flatten side)),
    .node .list (s.methods.map (Method.flatten side))]

/-! ### Chains -/

section

variable {level : Level} {e e' : Expr} {links links' : List (Text × Expr)}

/-- An expression that binds tighter than a level is an operand in its chains. -/
lemma spine_flatten (side : Associativity) (h : level.rank < e.rank) :
    (e.flatten side).spine (some level) = ([], [e.flatten side]) := by
  cases e with
  | binary operator left right =>
    have hne : Level.of? operator ≠ some level := by
      intro hof
      rw [Expr.rank, hof] at h
      exact absurd h (lt_irrefl _)
    rw [Expr.flatten]
    exact Flat.spine_join_of_ne side hne
  | _ => simp [Flat.spine]

def flattenLinks (side : Associativity) (links : List (Text × Expr)) : List Flat :=
  links.map fun link => link.2.flatten side

lemma spine_foldRight (hops : ∀ link ∈ links, link.1 ∈ level.operators)
    (htight : ∀ link ∈ links, level.rank < link.2.rank) (he : level.rank < e.rank) :
    ((Associativity.foldRight .binary e links).flatten .right).spine (some level) =
      (links.map Prod.fst, e.flatten .right :: flattenLinks .right links) := by
  induction links generalizing e with
  | nil => exact spine_flatten .right he
  | cons link links ih =>
    obtain ⟨hop, hops⟩ := List.forall_mem_cons.mp hops
    obtain ⟨hnext, htight⟩ := List.forall_mem_cons.mp htight
    have hrest := ih hops htight hnext
    rw [Associativity.foldRight, Expr.flatten, Flat.spine_join_right (Level.of?_of_mem hop), hrest]
    rfl

/-- Links that are added on the right go on with the chain that is there. -/
lemma spine_foldLeft (hops : ∀ link ∈ links, link.1 ∈ level.operators) :
    ((Associativity.foldLeft .binary e links).flatten .left).spine (some level) =
      (((e.flatten .left).spine (some level)).1 ++ links.map Prod.fst,
        ((e.flatten .left).spine (some level)).2 ++ flattenLinks .left links) := by
  induction links generalizing e with
  | nil => simp [Associativity.foldLeft, flattenLinks]
  | cons link links ih =>
    obtain ⟨hop, hops⟩ := List.forall_mem_cons.mp hops
    rw [Associativity.foldLeft, ih hops, Expr.flatten,
      Flat.spine_join_left (Level.of?_of_mem hop)]
    simp [flattenLinks]

lemma rank_foldLeft (hops : ∀ link ∈ links, link.1 ∈ level.operators) (he : e.rank = level.rank) :
    (Associativity.foldLeft .binary e links).rank = level.rank := by
  induction links generalizing e with
  | nil => exact he
  | cons link links ih =>
    obtain ⟨hop, hops⟩ := List.forall_mem_cons.mp hops
    exact ih hops (Expr.rank_binary hop)

/-- A chain binds as its level does, or tighter if it is a single operand. -/
lemma le_rank_fold (side : Associativity) (hops : ∀ link ∈ links, link.1 ∈ level.operators)
    (he : level.rank < e.rank) : level.rank ≤ (side.fold .binary e links).rank := by
  rcases links with _ | ⟨link, links⟩
  · cases side <;> exact he.le
  · obtain ⟨hop, hops⟩ := List.forall_mem_cons.mp hops
    cases side with
    | right => exact (Expr.rank_binary hop).ge
    | left => exact (rank_foldLeft hops (Expr.rank_binary hop)).ge

/-- **Chains**: folded to the right and folded to the left, a chain of the same operators between
the same operands is the same flat tree. -/
lemma flatten_fold (h : e.flatten .right = e'.flatten .left) (he : level.rank < e.rank)
    (he' : level.rank < e'.rank) (hops : ∀ link ∈ links, link.1 ∈ level.operators)
    (hops' : ∀ link ∈ links', link.1 ∈ level.operators)
    (htight : ∀ link ∈ links, level.rank < link.2.rank)
    (hsame : links.map Prod.fst = links'.map Prod.fst)
    (hoperands : flattenLinks .right links = flattenLinks .left links') :
    (Associativity.foldRight .binary e links).flatten .right =
      (Associativity.foldLeft .binary e' links').flatten .left := by
  have hright := spine_foldRight hops htight he
  have hleft := @spine_foldLeft level e' links' hops'
  rw [spine_flatten .left he', ← hsame, ← hoperands, ← h] at hleft
  -- a single operand has no spine of its own; with operators the spine tells the tree
  rcases links with _ | ⟨link, links⟩
  · obtain rfl : links' = [] := by simpa using hsame.symm
    exact h
  · exact (Flat.eq_of_spine hright (by simp)).trans (Flat.eq_of_spine hleft (by simp)).symm

/-- `a - (b - c)` read with the right fold and `(a - b) - c` read with the left one. -/
example (a b c : Text) :
    (Expr.binary ['-'] (.variable a) (.binary ['-'] (.variable b) (.variable c))).flatten .right =
      (Expr.binary ['-'] (.binary ['-'] (.variable a) (.variable b)) (.variable c)).flatten .left :=
  rfl

end

end Pebble

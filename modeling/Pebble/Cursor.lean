/-!
Cursors: a sequence that never changes and a position in it that only moves forward. The position
may lie before the sequence or past its end, where nothing is to be seen.
-/

namespace Pebble

structure Cursor (α : Type) where
  items : List α
  position : Int := 0
  deriving DecidableEq, Repr

namespace Cursor

variable {α : Type}

/-- What is to be seen from an index on: nothing if the index lies outside. -/
def viewAt (c : Cursor α) (index : Int) : List α :=
  if index < 0 then [] else c.items.drop index.toNat

def view (c : Cursor α) : List α := c.viewAt c.position

/-- The item `k` places after the position, or before it if `k` is negative. -/
def peek? (c : Cursor α) (k : Int) : Option α := (c.viewAt (c.position + k)).head?

def has (c : Cursor α) (k : Int) : Bool := (c.peek? k).isSome

def advance (c : Cursor α) (n : Nat) : Cursor α := { c with position := c.position + n }

theorem viewAt_natCast (c : Cursor α) (n : Nat) : c.viewAt n = c.items.drop n := by
  have h : ¬ (n : Int) < 0 := by omega
  simp [viewAt, h]

/-- Items are seen at the indices of the sequence and nowhere else. -/
theorem peek?_eq_none_iff (c : Cursor α) (k : Int) :
    c.peek? k = none ↔ c.position + k < 0 ∨ c.items.length ≤ c.position + k := by
  unfold peek? viewAt
  split
  · simp_all
  · simp only [List.head?_drop, List.getElem?_eq_none_iff]
    omega

end Cursor

end Pebble

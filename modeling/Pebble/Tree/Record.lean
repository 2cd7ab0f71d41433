import Pebble.Json
import Pebble.Number.Decimal

/-!
Records: plain data with nodes in it. A node is its kind and its named parts, in a fixed order.
Records are what is shown of a tree, as JSON or as an outline.
-/

namespace Pebble

inductive Record where
  | nil
  | bool (b : Bool)
  | integer (n : Int)
  | decimal (d : Decimal)
  | text (t : Text)
  | list (items : List Record)
  | node (kind : Text) (parts : List (Text × Record))
  deriving Repr

namespace Record

def ofOption {α : Type} (record : α → Record) : Option α → Record
  | none => .nil
  | some x => record x

/-- Whether a record is there at all: all but `nil` are. -/
def isPresent : Record → Bool
  | nil => false
  | _ => true

/-- The name under which the kind of a node is written. -/
def kindKey : Text := "kind".toList

/-- The name of the part that tells whether a field has a type. -/
def typeFlag : Text := "has_type".toList

mutual

/-- The JSON value of a record. A node's kind comes first, and a decimal is a string that keeps its
digits. -/
def toJson : Record → Json
  | .nil => .null
  | .bool b => .bool b
  | .integer n => .integer n
  | .decimal d => .text d.toText
  | .text t => .text t
  | .list items => .list (itemsToJson items)
  | .node kind parts => .object ((kindKey, .text kind) :: partsToJson parts)

def itemsToJson : List Record → List Json
  | [] => []
  | item :: items => item.toJson :: itemsToJson items

def partsToJson : List (Text × Record) → List (Text × Json)
  | [] => []
  | (name, part) :: parts => (name, part.toJson) :: partsToJson parts

end

/-- A line of an outline: how deep it is, the name or number of what it shows, and that itself,
unless it has a line for each of its parts. -/
structure Line where
  depth : Nat
  label : Text
  value : Record
  deriving Repr

mutual

/-- The outline of a record and the lines after it: a line for each record in it, parts after what
they are part of. A node shows its kind and a list its size, and whether a field has a type is left
out. -/
def outlineThen (after : List Line) (depth : Nat) (label : Text) : Record → List Line
  | .list items =>
    ⟨depth, label, .text ("list ".toList ++ Text.ofNat items.length)⟩ ::
      itemsThen after (depth + 1) 0 items
  | .node kind parts =>
    ⟨depth, label, .text ("node ".toList ++ kind)⟩ :: partsThen after (depth + 1) parts
  | record => ⟨depth, label, record⟩ :: after

def itemsThen (after : List Line) (depth index : Nat) : List Record → List Line
  | [] => after
  | item :: items =>
    outlineThen (itemsThen after depth (index + 1) items) depth (Text.ofNat index) item

def partsThen (after : List Line) (depth : Nat) : List (Text × Record) → List Line
  | [] => after
  | (name, part) :: parts =>
    if name = typeFlag then partsThen after depth parts
    else outlineThen (partsThen after depth parts) depth name part

end

def outline (record : Record) : List Line := record.outlineThen [] 0 []

end Record

end Pebble

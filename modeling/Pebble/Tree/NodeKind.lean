import Pebble.Tree.Record

/-!
The kinds of nodes of a syntax tree, and the parts that each of them has. A node can be built from
parts that are given by name: those that are not given are empty.
-/

namespace Pebble

inductive NodeKind where
  | source
  | field
  | method
  | expression
  | assignment
  | declaration
  | ifElse
  | forIn
  | whileDo
  | return
  | literal
  | group
  | access
  | function
  | binary
  deriving DecidableEq, Repr

namespace NodeKind

def tag : NodeKind → Text
  | source => "source".toList
  | field => "field".toList
  | method => "method".toList
  | expression => "expression".toList
  | assignment => "assignment".toList
  | declaration => "declaration".toList
  | ifElse => "if".toList
  | forIn => "for".toList
  | whileDo => "while".toList
  | .return => "return".toList
  | literal => "literal".toList
  | group => "group".toList
  | access => "access".toList
  | function => "function".toList
  | binary => "binary".toList

def single (name : String) : Text × Record := (name.toList, .nil)

def several (name : String) : Text × Record := (name.toList, .list [])

/-- The parts of a node in their order, each with what an empty one holds. -/
def parts : NodeKind → List (Text × Record)
  | source => [several "fields", several "methods"]
  | field => [single "name", single "type_name", single "value"]
  | method => [single "name", several "parameters", several "statements"]
  | expression => [single "expression"]
  | assignment => [single "receiver", single "value"]
  | declaration => [single "name", single "value"]
  | ifElse => [single "condition", several "then_statements", several "else_statements"]
  | forIn => [single "name", single "value", several "statements"]
  | whileDo => [single "condition", several "statements"]
  | .return => [single "value"]
  | literal => [single "value"]
  | group => [single "expression"]
  | access => [single "receiver", single "name"]
  | function => [single "receiver", single "name", several "arguments"]
  | binary => [single "operator", single "left", single "right"]

/-- What is told of a node beside its parts: of a field, whether it has a type. -/
def remarks : NodeKind → List Record → List (Text × Record)
  | field, _ :: typeName :: _ => [(Record.typeFlag, .bool typeName.isPresent)]
  | _, _ => []

def node (kind : NodeKind) (values : List Record) : Record :=
  .node kind.tag ((kind.parts.map Prod.fst).zip values ++ kind.remarks values)

def build (kind : NodeKind) (given : List (Text × Record)) : Record :=
  kind.node (kind.parts.map fun part => (given.lookup part.1).getD part.2)

theorem build_zip (kind : NodeKind) (values : List Record)
    (h : values.length = kind.parts.length) :
    kind.build ((kind.parts.map Prod.fst).zip values) = kind.node values := by
  match values with
  | [] => cases kind <;> simp [parts] at h
  | [_] => cases kind <;> simp [parts] at h <;> rfl
  | [_, _] => cases kind <;> simp [parts] at h <;> rfl
  | [_, _, _] => cases kind <;> simp [parts] at h <;> rfl
  | _ :: _ :: _ :: _ :: _ => cases kind <;> simp [parts] at h

end NodeKind

end Pebble

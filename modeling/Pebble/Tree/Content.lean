import Pebble.Tree.Basic
import Pebble.Tree.NodeKind

/-!
Syntax trees as records. A variable is an access without a receiver, and the call of a function is
one without a receiver too.
-/

namespace Pebble

def Value.record : Value → Record
  | nil => .nil
  | bool b => .bool b
  | integer n => .integer n
  | decimal d => .decimal d
  | text t => .text t

def Record.binary (operator : Text) (left right : Record) : Record :=
  NodeKind.binary.node [.text operator, left, right]

mutual

def Expr.record : Expr → Record
  | .literal value => NodeKind.literal.node [value.record]
  | .group inner => NodeKind.group.node [inner.record]
  | .variable name => NodeKind.access.node [.nil, .text name]
  | .member receiver name => NodeKind.access.node [receiver.record, .text name]
  | .call name arguments =>
    NodeKind.function.node [.nil, .text name, .list (Expr.records arguments)]
  | .invoke receiver name arguments =>
    NodeKind.function.node [receiver.record, .text name, .list (Expr.records arguments)]
  | .binary operator left right => Record.binary operator left.record right.record

def Expr.records : List Expr → List Record
  | [] => []
  | e :: es => e.record :: Expr.records es

end

mutual

def Stmt.record : Stmt → Record
  | .expression value => NodeKind.expression.node [value.record]
  | .assignment receiver value => NodeKind.assignment.node [receiver.record, value.record]
  | .declaration name value =>
    NodeKind.declaration.node [.text name, Record.ofOption Expr.record value]
  | .ifElse condition thenBody elseBody =>
    NodeKind.ifElse.node
      [condition.record, .list (Stmt.records thenBody), .list (Stmt.records elseBody)]
  | .forIn name value body =>
    NodeKind.forIn.node [.text name, value.record, .list (Stmt.records body)]
  | .whileDo condition body =>
    NodeKind.whileDo.node [condition.record, .list (Stmt.records body)]
  | .return value => NodeKind.return.node [value.record]

def Stmt.records : List Stmt → List Record
  | [] => []
  | s :: ss => s.record :: Stmt.records ss

end

def Field.record (field : Field) : Record :=
  NodeKind.field.node
    [.text field.name, Record.ofOption .text field.typeName,
      Record.ofOption Expr.record field.value]

def Method.record (method : Method) : Record :=
  NodeKind.method.node
    [.text method.name, .list (method.parameters.map .text), .list (Stmt.records method.body)]

def Source.record (source : Source) : Record :=
  NodeKind.source.node
    [.list (source.fields.map Field.record), .list (source.methods.map Method.record)]

/-- The last part of a field tells whether it has a type. -/
theorem Field.record_eq (field : Field) :
    field.record =
      .node NodeKind.field.tag
        [("name".toList, .text field.name),
          ("type_name".toList, Record.ofOption .text field.typeName),
          ("value".toList, Record.ofOption Expr.record field.value),
          (Record.typeFlag, .bool field.hasType)] := by
  cases h : field.typeName <;>
    simp [Field.record, NodeKind.node, NodeKind.parts, NodeKind.single, NodeKind.remarks,
      Field.hasType, Record.ofOption, Record.isPresent, h]

end Pebble

/- # FnLang.Node.Data — trees as plain data.

A node becomes a record: first its kind, then its fields in the order of the form.  A missing
alternative is there as null.
-/
import FnLang.Json
import FnLang.Node

namespace FnLang

namespace Node

mutual

/-- The record of a node. -/
def toJson : Node → Json
  | identifier name => .record [("kind", .str "identifier"), ("name", .str name)]
  | integer value => .record [("kind", .str "integer"), ("value", .int value)]
  | boolean value => .record [("kind", .str "boolean"), ("value", .bool value)]
  | function parameters body =>
      .record [("kind", .str "function"), ("parameters", .list (toJsonAll parameters)),
        ("body", toJson body)]
  | unary operator right =>
      .record [("kind", .str "prefix"), ("operator", .str operator), ("right", toJson right)]
  | binary left operator right =>
      .record [("kind", .str "infix"), ("left", toJson left), ("operator", .str operator),
        ("right", toJson right)]
  | conditional condition consequence alternative =>
      .record [("kind", .str "if"), ("condition", toJson condition),
        ("consequence", toJson consequence), ("alternative", toJsonOption alternative)]
  | call callee arguments =>
      .record [("kind", .str "call"), ("function", toJson callee),
        ("arguments", .list (toJsonAll arguments))]
  | binding name value =>
      .record [("kind", .str "let"), ("name", toJson name), ("value", toJson value)]
  | returning value => .record [("kind", .str "return"), ("value", toJson value)]
  | expression value => .record [("kind", .str "expression"), ("value", toJson value)]
  | block statements =>
      .record [("kind", .str "block"), ("statements", .list (toJsonAll statements))]
  | program statements =>
      .record [("kind", .str "program"), ("statements", .list (toJsonAll statements))]
  | formless _ label => .record [("kind", .str label)]

/-- The records of several nodes. -/
def toJsonAll : List Node → List Json
  | [] => []
  | a :: as => toJson a :: toJsonAll as

/-- The record of an optional node, or null. -/
def toJsonOption : Option Node → Json
  | none => .null
  | some a => toJson a

end

end Node

/-! ## Comparing values -/

/-- A value that can be compared with a node: a node or plain data. -/
inductive Comparand where
  | node (a : Node)
  | data (x : Json)

/-- Nodes are compared as nodes and data as data; a node never equals data. -/
def Comparand.same : Comparand → Comparand → Bool
  | .node a, .node b => a.same b
  | .data x, .data y => x.same y
  | _, _ => false

end FnLang

/- # FnLang.Node — the trees of the language.

A tree is built from thirteen forms, and any node may stand wherever a form has room for one; which
trees are programs is a property of trees, not of the type.  A node without a form belongs to a
family and carries a kind and nothing else.

Two nodes are the same when their forms and fields are.  Of nodes without a form only the family
counts: the kind is a label.
-/

namespace FnLang

/-- The families of nodes without a form. -/
inductive Family where
  | node
  | expression
  | statement
  deriving DecidableEq, Repr

/-- A node of a tree. -/
inductive Node where
  | identifier (name : String)
  | integer (value : Int)
  | boolean (value : Bool)
  | function (parameters : List Node) (body : Node)
  | unary (operator : String) (right : Node)
  | binary (left : Node) (operator : String) (right : Node)
  | conditional (condition consequence : Node) (alternative : Option Node)
  | call (callee : Node) (arguments : List Node)
  | binding (name value : Node)
  | returning (value : Node)
  | expression (value : Node)
  | block (statements : List Node)
  | program (statements : List Node)
  | formless (family : Family) (label : String)
  deriving Repr

namespace Node

/-- The kind that a node's form goes by. -/
def kind : Node → String
  | identifier _ => "identifier"
  | integer _ => "integer"
  | boolean _ => "boolean"
  | function _ _ => "function"
  | unary _ _ => "prefix"
  | binary _ _ _ => "infix"
  | conditional _ _ _ => "if"
  | call _ _ => "call"
  | binding _ _ => "let"
  | returning _ => "return"
  | expression _ => "expression"
  | block _ => "block"
  | program _ => "program"
  | formless _ label => label

/-- The nodes directly below a node, in the order of its fields. -/
def children : Node → List Node
  | identifier _ | integer _ | boolean _ | formless _ _ => []
  | function parameters body => parameters ++ [body]
  | unary _ right => [right]
  | binary left _ right => [left, right]
  | conditional condition consequence alternative =>
      condition :: consequence :: alternative.toList
  | call callee arguments => callee :: arguments
  | binding name value => [name, value]
  | returning value | expression value => [value]
  | block statements | program statements => statements

/-! ## Sameness -/

section

variable (labels : String → String → Bool)

mutual

/-- Whether two nodes have the same form and fields, labels being compared by `labels`. -/
def agree : Node → Node → Bool
  | identifier a, identifier b => a == b
  | integer a, integer b => a == b
  | boolean a, boolean b => a == b
  | function ps a, function qs b => agreeAll ps qs && agree a b
  | unary op a, unary op' b => op == op' && agree a b
  | binary a op b, binary a' op' b' => agree a a' && op == op' && agree b b'
  | conditional a b c, conditional a' b' c' => agree a a' && agree b b' && agreeOption c c'
  | call a as, call b bs => agree a b && agreeAll as bs
  | binding a b, binding a' b' => agree a a' && agree b b'
  | returning a, returning b => agree a b
  | expression a, expression b => agree a b
  | block as, block bs => agreeAll as bs
  | program as, program bs => agreeAll as bs
  | formless f l, formless f' l' => f == f' && labels l l'
  | _, _ => false

/-- Whether two lists hold nodes that agree, in the same order. -/
def agreeAll : List Node → List Node → Bool
  | [], [] => true
  | a :: as, b :: bs => agree a b && agreeAll as bs
  | _, _ => false

/-- Whether two optional nodes are both missing, or both there and agree. -/
def agreeOption : Option Node → Option Node → Bool
  | none, none => true
  | some a, some b => agree a b
  | _, _ => false

end

end

/-- Whether two nodes are the same; labels do not count. -/
def same (a b : Node) : Bool :=
  agree (fun _ _ => true) a b

mutual

/-- Nodes that agree in everything are equal. -/
theorem agree_beq_iff : ∀ a b : Node, agree (· == ·) a b = true ↔ a = b
  | identifier _, b | integer _, b | boolean _, b | formless _ _, b => by
      cases b <;> simp [agree]
  | function ps a, b => by
      cases b <;> simp [agree, agreeAll_beq_iff ps, agree_beq_iff a]
  | unary _ a, b => by cases b <;> simp [agree, agree_beq_iff a]
  | binary a _ b, c => by
      cases c <;> simp [agree, agree_beq_iff a, agree_beq_iff b, and_assoc]
  | conditional a b c, d => by
      cases d <;> simp [agree, agree_beq_iff a, agree_beq_iff b, agreeOption_beq_iff c, and_assoc]
  | call a as, b => by cases b <;> simp [agree, agree_beq_iff a, agreeAll_beq_iff as]
  | binding a b, c => by cases c <;> simp [agree, agree_beq_iff a, agree_beq_iff b]
  | returning a, b | expression a, b => by cases b <;> simp [agree, agree_beq_iff a]
  | block as, b | program as, b => by cases b <;> simp [agree, agreeAll_beq_iff as]

theorem agreeAll_beq_iff : ∀ as bs : List Node, agreeAll (· == ·) as bs = true ↔ as = bs
  | [], bs => by cases bs <;> simp [agreeAll]
  | a :: as, bs => by cases bs <;> simp [agreeAll, agree_beq_iff a, agreeAll_beq_iff as]

theorem agreeOption_beq_iff : ∀ a b : Option Node, agreeOption (· == ·) a b = true ↔ a = b
  | none, b => by cases b <;> simp [agreeOption]
  | some a, b => by cases b <;> simp [agreeOption, agree_beq_iff a]

end

instance : DecidableEq Node := fun a b => decidable_of_iff _ (agree_beq_iff a b)

end Node

end FnLang

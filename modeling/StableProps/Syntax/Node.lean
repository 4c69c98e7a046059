import StableProps.Syntax.Kind

/-!
# Syntax trees

A node is a rule with its children or a plain token. Nodes know the half-open range of UTF-8
bytes they cover and the text in it, so no later stage needs the source to read a name. The
numbers `Node.id` are handed out in pre-order when a tree is finished; within one tree they stand
for the identity of a node.
-/

namespace StableProps

/-- The part a child plays in its parent. -/
inductive Field where
  | alias | alternative | argument | arguments | attribute | body | closeTag | condition
  | consequence | constraint | constructor | declaration | decorator | finalizer | flags
  | function | handler | increment | index | indexType | initializer | key | kind | label | left
  | member | name | object | openTag | operator | optionalChain | parameter | parameters | pattern
  | property | qualifier | returnType | right | sign | source | type | typeArguments
  | typeParameters | value
  deriving DecidableEq, Repr

/-- A node is named by its rule, or is a token that stands for itself. -/
inductive Label where
  | token (text : String)
  | rule (kind : Kind)
  deriving DecidableEq, Repr, Inhabited

/-- The word that reports use for a label. -/
def Label.name : Label → String
  | .token text => text
  | .rule kind => kind.name

/-- A node of a syntax tree with everything below it. -/
structure Node where
  /-- Pre-order number in the finished tree. -/
  id : Nat
  /-- Rule or token. -/
  label : Label
  /-- The part this node plays in its parent. -/
  field : Option Field
  /-- Offset of the first byte. -/
  start : Nat
  /-- Offset behind the last byte. -/
  stop : Nat
  /-- The source text of the range. -/
  text : String
  /-- Children in source order. -/
  children : List Node
  deriving Inhabited

namespace Node

/-- A child is smaller than its parent, the measure of every recursion down a tree. -/
theorem sizeOf_lt_of_mem {n c : Node} (h : c ∈ n.children) : sizeOf c < sizeOf n := by
  cases n with
  | mk id label field start stop text children =>
    have : sizeOf c < sizeOf children := List.sizeOf_lt_of_mem h
    simp only [Node.mk.sizeOf_spec]
    omega

/-- The rule of a named node. -/
def kind? (n : Node) : Option Kind :=
  match n.label with
  | .rule k => some k
  | .token _ => none

/-- Whether the node was read by the rule. -/
def is (n : Node) (k : Kind) : Bool := n.label == .rule k

/-- Whether the node was read by one of the rules. -/
def isOneOf (n : Node) (ks : List Kind) : Bool :=
  match n.label with
  | .rule k => ks.contains k
  | .token _ => false

/-- Whether the node is the token. -/
def isToken (n : Node) (t : String) : Bool := n.label == .token t

/-- Rules are named nodes, tokens are not. -/
def isNamed (n : Node) : Bool := n.kind?.isSome

/-- The children that are not plain tokens; comments count. -/
def namedChildren (n : Node) : List Node := n.children.filter isNamed

/-- The first child that plays the given part. -/
def child? (n : Node) (f : Field) : Option Node := n.children.find? (·.field == some f)

/-- The first named child. -/
def firstNamed? (n : Node) : Option Node := n.children.find? isNamed

/-- The first named child of a kind. -/
def childOf? (n : Node) (k : Kind) : Option Node := n.children.find? (·.is k)

/-- Whether some child is the token. -/
def hasToken (n : Node) (t : String) : Bool := n.children.any (·.isToken t)

/-- The child of a field is a child. -/
theorem mem_of_child? {n c : Node} {f : Field} (h : n.child? f = some c) : c ∈ n.children :=
  List.mem_of_find?_eq_some h

/-- The child of a field stands in that field. -/
theorem field_of_child? {n c : Node} {f : Field} (h : n.child? f = some c) : c.field = some f :=
  eq_of_beq (List.find?_some (p := fun c : Node => c.field == some f) h)

/-- The first named child is a child. -/
theorem mem_of_firstNamed? {n c : Node} (h : n.firstNamed? = some c) : c ∈ n.children :=
  List.mem_of_find?_eq_some h

/-- The child of a kind is a child. -/
theorem mem_of_childOf? {n c : Node} {k : Kind} (h : n.childOf? k = some c) : c ∈ n.children :=
  List.mem_of_find?_eq_some h

/-- The child of a kind is of that kind. -/
theorem is_of_childOf? {n c : Node} {k : Kind} (h : n.childOf? k = some c) : c.is k = true :=
  List.find?_some (p := fun c : Node => c.is k) h

/-- The first named child is a named node, not a token. -/
theorem isNamed_of_firstNamed? {n c : Node} (h : n.firstNamed? = some c) : c.isNamed = true :=
  List.find?_some h

/-- A node was read by one rule at most. -/
theorem eq_of_is {n : Node} {k l : Kind} (hk : n.is k = true) (hl : n.is l = true) : k = l := by
  simp only [is, beq_iff_eq] at hk hl
  exact Label.rule.inj (hk.symm.trans hl)

/-- A named child is a child. -/
theorem mem_of_mem_namedChildren {n c : Node} (h : c ∈ n.namedChildren) : c ∈ n.children :=
  (List.mem_filter.1 h).1

mutual

/-- The node and all below it, parents before children, in source order. -/
def walk (n : Node) : List Node :=
  match n with
  | ⟨id, label, field, start, stop, text, children⟩ =>
    ⟨id, label, field, start, stop, text, children⟩ :: walkAll children

/-- Pre-order of a list of trees. -/
def walkAll : List Node → List Node
  | [] => []
  | c :: cs => walk c ++ walkAll cs

end

end Node

end StableProps

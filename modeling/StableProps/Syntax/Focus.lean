import StableProps.Syntax.Node

/-!
# Nodes in their place

A focus is a node together with the nodes around it. It answers questions about ancestors that a
node alone cannot; two foci of one tree are the same place if their nodes have the same number.
-/

namespace StableProps

/-- A node and its ancestors, the innermost first. -/
structure Focus where
  node : Node
  above : List Node
  deriving Inhabited

namespace Focus

/-- The number of the node. -/
def id (f : Focus) : Nat := f.node.id

/-- The place of a child. -/
def down (f : Focus) (c : Node) : Focus := ⟨c, f.node :: f.above⟩

/-- The place around this one. -/
def parent? (f : Focus) : Option Focus :=
  match f.above with
  | [] => none
  | p :: ps => some ⟨p, ps⟩

/-- The places of a list of ancestors. -/
def ofAbove : List Node → List Focus
  | [] => []
  | p :: ps => ⟨p, ps⟩ :: ofAbove ps

/-- This place and all around it, from the inside out. -/
def outward (f : Focus) : List Focus := f :: ofAbove f.above

/-- The nearest place, this one included, that satisfies the test. -/
def findUp? (f : Focus) (test : Focus → Bool) : Option Focus := f.outward.find? test

/-- The child that plays the given part. -/
def child? (f : Focus) (field : Field) : Option Focus := (f.node.child? field).map f.down

/-- The places of the named children. -/
def namedChildren (f : Focus) : List Focus := f.node.namedChildren.map f.down

/-- The place of the first named child. -/
def firstNamed? (f : Focus) : Option Focus := f.node.firstNamed?.map f.down

/-- Whether the place lies strictly inside another one. -/
def isInside (f outer : Focus) : Bool := f.above.any (·.id == outer.id)

/-- Whether the place is the other one or lies inside it. -/
def isWithin (f outer : Focus) : Bool := f.id == outer.id || f.isInside outer

mutual

/-- All places in a tree, parents before children, in source order. -/
def walkFrom (above : List Node) (n : Node) : List Focus :=
  match n with
  | ⟨id, label, field, start, stop, text, children⟩ =>
    let n : Node := ⟨id, label, field, start, stop, text, children⟩
    ⟨n, above⟩ :: walkAll (n :: above) children

/-- All places in a list of neighbours. -/
def walkAll (above : List Node) : List Node → List Focus
  | [] => []
  | c :: cs => walkFrom above c ++ walkAll above cs

end

/-- The place and all places below it in pre-order. -/
def walk (f : Focus) : List Focus := walkFrom f.above f.node

end Focus

/-- The place of a whole tree. -/
def Node.focus (root : Node) : Focus := ⟨root, []⟩

/-- Rules that make a function. -/
def functionKinds : List Kind :=
  [.arrowFunction, .functionDeclaration, .functionExpression, .generatorFunction,
   .generatorFunctionDeclaration, .methodDefinition]

/-- Whether a node makes a function. The keyword alone counts too. -/
def Node.isFunction (n : Node) : Bool := n.isOneOf functionKinds || n.isToken "function"

/-- A node of a kind that is no kind of function is no function. -/
theorem Node.isFunction_eq_false_of_is {n : Node} {k : Kind} (h : n.is k = true)
    (hk : functionKinds.contains k = false) : n.isFunction = false := by
  have hlabel : n.label = .rule k := eq_of_beq h
  simp only [isFunction, isOneOf, isToken, hlabel, hk]
  rfl

/-- A node of one of several kinds, none of them a kind of function, is no function. -/
theorem Node.isFunction_eq_false_of_isOneOf {n : Node} {ks : List Kind} (h : n.isOneOf ks = true)
    (hks : ∀ k ∈ ks, functionKinds.contains k = false) : n.isFunction = false := by
  rw [isOneOf] at h
  split at h
  next k hlabel =>
    refine isFunction_eq_false_of_is ?_ (hks k (List.contains_iff_mem.1 h))
    rw [is, hlabel, beq_self_eq_true]
  · cases h

/-- The expression inside parentheses that hold nothing else. -/
def Node.unparenthesized (n : Node) : Node :=
  match n with
  | ⟨id, label, field, start, stop, text, children⟩ =>
    let n : Node := ⟨id, label, field, start, stop, text, children⟩
    if label = .rule .parenthesizedExpression ∧ n.namedChildren.length = 1 then
      inner n children
    else n
where
  /-- The first named node of a list, without its parentheses. -/
  inner (whole : Node) : List Node → Node
    | [] => whole
    | c :: cs => if c.isNamed then Node.unparenthesized c else inner whole cs

end StableProps

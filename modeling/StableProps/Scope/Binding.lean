import StableProps.Syntax.Focus

/-!
# Names bound by patterns

A pattern binds the names at its leaves. The path to a leaf tells which part of the destructured
value the name stands for.
-/

namespace StableProps

/-- One step into a destructured value. -/
inductive Step where
  /-- The property of a name. -/
  | key (name : String)
  /-- The element at a position. -/
  | index (position : Nat)
  deriving DecidableEq, Repr

/-- A bound name in its place, with the path to it. -/
structure Bound where
  place : Focus
  path : List Step

/-- The text of a quoted string without its quotes. -/
def unquoted (text : String) : String := String.ofList (text.toList.drop 1).dropLast

/-- The name that a key stands for. -/
def Node.keyText (n : Node) : String :=
  if n.is .stringLiteral ∧ 2 ≤ n.text.length then unquoted n.text else n.text

namespace Bound

/-- The step for all that is left over. -/
def restStep : Step := .key "..."

mutual

/-- The names bound by a pattern at the end of a path. -/
def ofPattern (above : List Node) (path : List Step) (n : Node) : List Bound :=
  match n with
  | ⟨id, label, field, start, stop, text, children⟩ =>
    let n : Node := ⟨id, label, field, start, stop, text, children⟩
    match label with
    | .rule .identifier => [⟨⟨n, above⟩, path⟩]
    | .rule .shorthandPropertyIdentifierPattern => [⟨⟨n, above⟩, path⟩]
    | .rule .objectPattern => ofEntries (n :: above) path children
    | .rule .arrayPattern => ofElements (n :: above) path 0 children
    | .rule .assignmentPattern => ofField (n :: above) path .left children
    | .rule .objectAssignmentPattern => ofField (n :: above) path .left children
    | .rule .restPattern => ofFirstNamed (n :: above) (path ++ [restStep]) children
    | _ => []
termination_by structural n

/-- The names bound by an entry of an object pattern. -/
def ofEntry (above : List Node) (path : List Step) (n : Node) : List Bound :=
  match n with
  | ⟨id, label, field, start, stop, text, children⟩ =>
    let n : Node := ⟨id, label, field, start, stop, text, children⟩
    match label with
    | .rule .shorthandPropertyIdentifierPattern => [⟨⟨n, above⟩, path ++ [.key text]⟩]
    | .rule .pairPattern =>
      let key := ((n.child? .key).map Node.keyText).getD ""
      ofField (n :: above) (path ++ [.key key]) .value children
    | .rule .objectAssignmentPattern =>
      let key := ((n.child? .left).map Node.text).getD ""
      ofField (n :: above) (path ++ [.key key]) .left children
    | .rule .restPattern => ofFirstNamed (n :: above) (path ++ [restStep]) children
    | _ => []
termination_by structural n

/-- The names bound by all entries of an object pattern. -/
def ofEntries (above : List Node) (path : List Step) : List Node → List Bound
  | [] => []
  | c :: cs => ofEntry above path c ++ ofEntries above path cs
termination_by structural cs => cs

/-- The names bound by the elements of an array pattern; each comma moves one position on. -/
def ofElements (above : List Node) (path : List Step) (position : Nat) : List Node → List Bound
  | [] => []
  | c :: cs =>
    if c.isToken "," then ofElements above path (position + 1) cs
    else if c.isNamed then
      ofPattern above (path ++ [.index position]) c ++ ofElements above path position cs
    else ofElements above path position cs
termination_by structural cs => cs

/-- The names bound by the first child that plays a part. -/
def ofField (above : List Node) (path : List Step) (part : Field) : List Node → List Bound
  | [] => []
  | c :: cs => if c.field == some part then ofPattern above path c else ofField above path part cs
termination_by structural cs => cs

/-- The names bound by the first named child. -/
def ofFirstNamed (above : List Node) (path : List Step) : List Node → List Bound
  | [] => []
  | c :: cs => if c.isNamed then ofPattern above path c else ofFirstNamed above path cs
termination_by structural cs => cs

end

end Bound

/-- The names a pattern binds. -/
def Focus.bindings (f : Focus) : List Bound := Bound.ofPattern f.above [] f.node

end StableProps

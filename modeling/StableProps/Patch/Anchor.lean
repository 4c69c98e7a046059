import StableProps.Lift.Dependencies
import StableProps.Patch.Part

/-!
# Where a hook goes

A hook is called in the body of its component, before the first statement that returns or acts and
before the statement that uses its value, but behind all declarations it depends on. If there is no
such place, the value is not kept by a hook. A body that is an expression becomes a block.
-/

namespace StableProps

/-- The place of a new declaration inside a component. -/
structure HookAnchor where
  offset : Nat
  indent : String
  /-- Whether the declaration comes behind another statement. -/
  after : Bool := false
  wrap : Option BodyWrap := none
  deriving DecidableEq, Repr

/-- The insertion of a declaration at its place. -/
def HookAnchor.insertion (a : HookAnchor) (declaration : String) : Insertion :=
  match a.wrap with
  | some w => { offset := a.offset, text := declaration, wrap := some w }
  | none =>
    if a.after then { offset := a.offset, text := "\n" ++ a.indent ++ declaration }
    else { offset := a.offset, text := declaration ++ "\n" ++ a.indent }

/-- The statement of a block that holds a place. -/
def Focus.statementIn? (f : Focus) (block : Node) : Option Focus :=
  f.findUp? fun g => g.above.head?.any (·.id == block.id)

namespace HookAnchor

/-- Statements that return or act. -/
def leadingKinds : List Kind := [.returnStatement, .expressionStatement]

/-- The first leading statement of a block. -/
def firstLeading? (block : Node) : Option Node := block.namedChildren.find? (·.isOneOf leadingKinds)

/-- The one of two statements that starts earlier, the first of equals. -/
def earlier? : Option Node → Option Node → Option Node
  | some a, some b => if b.start < a.start then some b else some a
  | a, b => a <|> b

/-- The statements of a block that declare the names a value depends on; none if one of them is
declared deeper inside. -/
def declaringStatements? (block : Node) (references : List Reference) : Option (List Node) :=
  ((Reference.ownNames references).filter (·.symbol.kind ≠ .parameter)).mapM fun r =>
    (r.symbol.declaration.statementIn? block).map (·.node)

/-- The statement that ends last, the first of equals. -/
def latest? (statements : List Node) : Option Node :=
  statements.foldl (fun best s =>
    match best with
    | none => some s
    | some b => if b.stop < s.stop then some s else some b) none

/-- The place in a block. -/
def inBlock? (bs : Bytes) (block : Node) (expression : Focus) (references : List Reference) :
    Option HookAnchor := do
  let site := (expression.statementIn? block).map (·.node)
  let anchor ← earlier? (firstLeading? block) site
  let declaring ← declaringStatements? block references
  match (latest? declaring).filter (anchor.start < ·.stop) with
  | none => some { offset := anchor.start, indent := bs.lineIndent anchor.start }
  | some last =>
    if site.any (·.start < last.stop) then none
    else some { offset := last.stop, indent := bs.lineIndent last.start, after := true }

/-- The place of a hook for an expression that a component renders. -/
def find? (bs : Bytes) (component expression : Focus) (references : List Reference) :
    Option HookAnchor :=
  if component.node.is .methodDefinition then none
  else match component.node.child? .body with
    | none => none
    | some body =>
      if body.is .statementBlock then inBlock? bs body expression references
      else
        let indent := bs.lineIndent component.node.start
        let unit := bs.indentUnit
        some {
          offset := body.start, indent := indent ++ unit
          wrap := some ⟨body.start, body.stop, indent, unit⟩ }

end HookAnchor

end StableProps

import StableProps.Import.Entry
import StableProps.Options.Basic
import StableProps.Patch.Edit
import StableProps.Source

/-!
# Parts of a fix

A fix replaces an expression, inserts declarations and adds imports. The parts stay apart until
all fixes of a file are put together.
-/

namespace StableProps

/-- Makes the body of a function that is an expression into a block. -/
structure BodyWrap where
  start : Nat
  stop : Nat
  /-- The indentation of the function. -/
  indent : String
  /-- What a level of indentation adds. -/
  unit : String
  deriving DecidableEq, Repr

/-- A text to be inserted, possibly into a body that has to become a block first. -/
structure Insertion where
  offset : Nat
  text : String
  wrap : Option BodyWrap := none
  deriving DecidableEq, Repr

/-- All that a fix changes. -/
structure FixParts where
  replacements : List Edit := []
  insertions : List Insertion := []
  imports : List ImportEntry := []
  deriving DecidableEq, Repr

/-- Whether a statement is a directive. -/
def Node.isDirective (n : Node) : Bool :=
  n.is .expressionStatement && n.firstNamed?.any (·.is .stringLiteral)

namespace Source

/-- Where the leading part of a module ends: behind its last import, or behind the directives at
its front if it has no imports. -/
def prologueEnd? (s : Source) : Option Nat :=
  let statements := s.root.namedChildren
  match (statements.filter (·.is .importStatement)).getLast? with
  | some last => some last.stop
  | none =>
    ((statements.filter (!·.is .comment)).takeWhile Node.isDirective).getLast?.map Node.stop

/-- The insertion of a new constant of the module. -/
def constantInsertion (s : Source) (declaration : String) (position : Position) : Insertion :=
  match position with
  | .start =>
    match s.prologueEnd? with
    | none => { offset := 0, text := declaration ++ "\n\n" }
    | some stop => { offset := stop, text := "\n" ++ declaration }
  | .end =>
    let last := (s.root.children.filter (!·.is .comment)).getLast?
    { offset := (last.map Node.stop).getD s.text.utf8ByteSize, text := "\n" ++ declaration }

/-- The insertion of a new import. -/
def importInsertion (s : Source) (statement : String) : Insertion :=
  match s.prologueEnd? with
  | none => { offset := 0, text := statement ++ "\n" }
  | some stop => { offset := stop, text := "\n" ++ statement }

end Source

end StableProps

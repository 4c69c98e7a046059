import StableProps.Props.Declared
import StableProps.Site.Name

/-!
# Dependencies of a value

The names in an expression that are bound outside of it decide how its value can be kept. Names of
the component are dependencies, except for those that never change between renders. A name bound by
another function, around the component or inside of it, keeps the value where it is.
-/

namespace StableProps

/-- What a name means for the component that renders a value. -/
inductive ReferenceClass where
  /-- Bound in the component. -/
  | componentLocal
  /-- A function that sets the state of the component. -/
  | stateSetter
  /-- A handle that stays the same. -/
  | refHandle
  /-- Bound outside of all functions. -/
  | external
  deriving DecidableEq, Repr

/-- The word that reports use for a class of reference. -/
def ReferenceClass.name : ReferenceClass → String
  | .componentLocal => "component-local"
  | .stateSetter => "state-setter"
  | .refHandle => "ref-handle"
  | .external => "external"

/-- A name in an expression that is bound outside of it. -/
structure Reference where
  symbol : Symbol
  /-- What it means for the component. -/
  sort : ReferenceClass

/-- The function that makes a value impossible to keep. -/
inductive SkipReason where
  /-- Bound by a function inside the component. -/
  | nested (name : String)
  /-- Bound by a function around the component. -/
  | enclosing (name : String)
  deriving DecidableEq, Repr

/-- The words for a reason. -/
def SkipReason.message : SkipReason → String
  | .nested name => s!"'{name}' is declared by a callback nested in the component"
  | .enclosing name => s!"'{name}' is declared by a function enclosing the component"

/-- The nearest function whose scope binds a symbol. -/
def Symbol.declaringFunction? (s : Symbol) : Option Focus :=
  if s.kind = .function then s.declaration.parent?.bind (·.findUp? (·.node.isFunction))
  else s.binding.findUp? (·.node.isFunction)

/-- The symbols outside of an expression that names in it refer to, in order of first use. -/
def ScopeTree.outerSymbols (t : ScopeTree) (expression : Focus) : List Symbol :=
  let names := expression.walk.filter
    (·.node.isOneOf [.identifier, .shorthandPropertyIdentifier])
  distinctBy (·.binding.id)
    ((names.filterMap t.resolve).filter fun s => !s.binding.isWithin expression)

/-- Whether a list occurs in another one. -/
def occursIn (part : List Char) : List Char → Bool
  | [] => part.isEmpty
  | c :: cs => part.isPrefixOf (c :: cs) || occursIn part cs

/-- Whether a text holds a start and, later on the same line, an end. -/
def holdsAround (opening closing : List Char) : List Char → Bool
  | [] => false
  | c :: cs =>
    (opening.isPrefixOf (c :: cs) &&
      occursIn closing (((c :: cs).drop opening.length).takeWhile (· != '\n'))) ||
    holdsAround opening closing cs

/-- Whether a rendered type holds that of a function that sets a state. -/
def isStateSetterText (s : String) : Bool :=
  holdsAround "Dispatch<SetStateAction<".toList ">>".toList s.toList

/-- Whether a rendered type holds that of a handle. -/
def isRefHandleText (s : String) : Bool := holdsAround "RefObject<".toList ">".toList s.toList

/-- The class of a name of the component by its type. -/
def ReferenceClass.ofType : Option TypeExpr → ReferenceClass
  | none => .componentLocal
  | some t =>
    if isStateSetterText t.render then .stateSetter
    else if isRefHandleText t.render then .refHandle
    else .componentLocal

namespace Project

variable {m : Type → Type} [Monad m]

/-- The class of a symbol for a component, or why a value that uses it cannot be kept. -/
def classify (p : Project m) (i : ModuleIndex) (component : Focus) (s : Symbol) :
    m (Except SkipReason ReferenceClass) := do
  match s.declaringFunction? with
  | none => return .ok .external
  | some f =>
    if f.id = component.id then return .ok (.ofType (← p.symbolType i s))
    else if f.isInside component then return .error (.nested s.name)
    else return .error (.enclosing s.name)

/-- The classes of several symbols, or the first reason against one. -/
def classifyAll (p : Project m) (i : ModuleIndex) (component : Focus) :
    List Symbol → m (Except SkipReason (List Reference))
  | [] => return .ok []
  | s :: rest => do
    match ← p.classify i component s with
    | .error reason => return .error reason
    | .ok c =>
      match ← classifyAll p i component rest with
      | .error reason => return .error reason
      | .ok references => return .ok (⟨s, c⟩ :: references)

/-- The references of an expression that a component renders. -/
def references (p : Project m) (i : ModuleIndex) (expression component : Focus) :
    m (Except SkipReason (List Reference)) :=
  p.classifyAll i component (i.scopes.outerSymbols expression)

end Project

namespace Reference

/-- The references to names of the component. -/
def ownNames (references : List Reference) : List Reference :=
  references.filter (·.sort ≠ .external)

/-- The names that a hook depends on. -/
def hookDependencies (references : List Reference) : List String :=
  (references.filter (·.sort = .componentLocal)).map (·.symbol.name)

end Reference

/-- The ways to keep a value, the preferred one first. A value that uses names of the component
stays in it; any other becomes a constant, but a function may as well stay. -/
def Strategy.choose (c : Category) (references : List Reference) : List Strategy :=
  if !(Reference.ownNames references).isEmpty then [.hook]
  else if c = .function then [.hook, .constant]
  else [.constant]

end StableProps

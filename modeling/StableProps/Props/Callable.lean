import StableProps.Props.Member

/-!
# Callable types

A type is callable if all of its values can be called: functions, objects and interfaces with a
call signature, known names, and unions, intersections and aliases of such types. An alias that
only leads back to itself is not callable.
-/

namespace StableProps

/-- Names of types whose values can be called. -/
def isCallableName (name : String) : Bool :=
  ["Function", "VoidFunction", "CallableFunction", "Dispatch", "EventHandler"].contains name ||
    Specifier.endsWith name "EventHandler"

namespace TypeExpr

variable {m : Type → Type} [Monad m]

mutual

/-- Whether a type is callable. Declarations are judged by `jump`. -/
def callableVia (jump : TypeDeclaration → m Bool) (t : TypeExpr) : m Bool :=
  match t with
  | .function .. => return true
  | .object _ _ callable => return callable
  | .intersection _ parts => anyCallable jump parts
  | .union _ parts => allCallable jump parts
  | .reference _ name _ d =>
    if isCallableName (lastPart '.' name) then return true
    else match d with
      | some d => jump d
      | none => return false
  | _ => return false
termination_by structural t

/-- Whether one of several types is callable. -/
def anyCallable (jump : TypeDeclaration → m Bool) (ts : List TypeExpr) : m Bool :=
  match ts with
  | [] => return false
  | t :: ts => do if ← callableVia jump t then return true else anyCallable jump ts
termination_by structural ts

/-- Whether all of several types are callable. -/
def allCallable (jump : TypeDeclaration → m Bool) (ts : List TypeExpr) : m Bool :=
  match ts with
  | [] => return true
  | t :: ts => do if ← callableVia jump t then allCallable jump ts else return false
termination_by structural ts

end

end TypeExpr

namespace Project

variable {m : Type → Type} [Monad m]

/-- Whether a declared type is callable, given how types are judged. -/
def isCallableDeclaration (p : Project m) (ask : TypeExpr → m Bool) (d : TypeDeclaration) :
    m Bool := do
  match d.place, d.modulePath with
  | some place, some path =>
    match ← p.index path with
    | none => return false
    | some i =>
      if d.kind = .alias then
        match place.child? .value with
        | some value => ask (← p.typeAt i value)
        | none => return false
      else if d.kind = .interface then
        return (place.node.child? .body).any fun body => body.children.any (·.is .callSignature)
      else return false
  | _, _ => return false

/-- Whether a type is callable, the declarations around it being given. -/
def isCallableInside (p : Project m) : Nat → Opened → TypeExpr → m Bool
  | 0, _, t => t.callableVia fun _ => return false
  | fuel + 1, opened, t => t.callableVia fun d =>
    if opened.contains d.identity then return false
    else p.isCallableDeclaration (p.isCallableInside fuel (d.identity :: opened)) d

/-- Whether a type is callable. -/
def isCallable (p : Project m) (t : TypeExpr) : m Bool := p.isCallableInside p.bound [] t

/-- Whether all members of a union are callable. -/
def isAssignableToCallable (p : Project m) (t : TypeExpr) : m Bool :=
  t.unionMembers.allM p.isCallable

end Project

end StableProps

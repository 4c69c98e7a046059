import StableProps.Import.Planner
import StableProps.Json.Write
import StableProps.Props.Declared

/-!
# Types of new bindings

A new binding gets the declared type of the prop it is passed to. If the type cannot be named in
the module, or needs no name from anywhere, it is written as an indexed access to the props of the
component instead. A callback keeps the callable members of a union only.
-/

namespace StableProps

/-- The type written at a new binding, and the imports it needs. -/
structure BindingType where
  text : Option String := none
  plan : ImportPlan := {}
  /-- Whether the type is written as an indexed access. -/
  isIndexed : Bool := false

/-- The type of the props of plain elements. -/
def componentProps : TypeDeclaration := Project.externalMember reactModule "ComponentProps"

namespace Planner

variable {m : Type → Type} [Monad m]

/-- The type of a prop as an indexed access to the props of the component. -/
def indexedType (p : Planner m) (s : Site) : m (Option (String × ImportPlan)) := do
  let prop := "[" ++ Json.writtenString s.attributeName ++ "]"
  if s.tag.node.is .identifier && s.tagName.toList.head?.any Text.isLowercase then
    let plan ← p.planDeclaration {} componentProps
    if plan.isImportable then
      return some ("ComponentProps<" ++ Json.writtenString s.tagName ++ ">" ++ prop, plan)
    else return none
  else return some ("Parameters<typeof " ++ s.tagName ++ ">[0]" ++ prop, {})

/-- The indexed access for a prop of a declared type. For a callback it must be callable. -/
def indexedBinding (p : Planner m) (s : Site) (callback : Bool) (declared : TypeExpr) :
    m BindingType := do
  match ← p.indexedType s with
  | none => return {}
  | some (text, plan) =>
    let fits ← if callback then p.project.isAssignableToCallable declared else pure true
    return { text := if fits then text else "(" ++ text ++ ") & Function", plan, isIndexed := true }

/-- The type of a new binding, given the declared type of the prop. -/
def bindingOf (p : Planner m) (s : Site) (callback : Bool) (declared : TypeExpr) :
    m BindingType := do
  let wanted ← if callback then declared.filteredUnion? p.project.isCallable
    else pure (some declared)
  match wanted with
  | none => p.indexedBinding s callback declared
  | some t =>
    let plan ← p.planType {} t
    if !plan.isImportable || (!plan.hasNewImports && plan.satisfied.isEmpty) then
      p.indexedBinding s callback declared
    else return { text := t.render, plan }

/-- The type of a new binding. Without a declared type there is none, also if looking for the
declared type fails. -/
def bindingType [MonadExceptOf Failure m] (p : Planner m) (s : Site) (callback : Bool) :
    m BindingType := do
  let declared ← tryCatchThe Failure
    (p.ask fun q => q.project.propType q.main s.tag s.attributeName) fun _ => return .ok none
  match declared with
  | .ok (some d) => p.ask (·.bindingOf s callback d.type)
  | _ => return {}

end Planner

end StableProps

import StableProps.Module.Query
import StableProps.Types.Stored

/-!
# Planning imports

What a module needs so that a type or hook can be named in it. A name that an import binds already
is enough if it stands for the same declaration; if it stands for something else, the declaration
cannot be imported under its name.
-/

namespace StableProps

/-- The module that new code is written for. -/
structure Planner (m : Type → Type) where
  project : Project m
  main : ModuleIndex

/-- Where a declaration can be imported from. -/
structure Origin where
  specifier : String
  path : Option Path
  exportName : String

namespace Origin

/-- What tells the module of an origin from others. -/
def moduleKey (o : Origin) : String := StableProps.moduleKey o.path o.specifier

/-- Whether the declaration is the default export. -/
def isDefault (o : Origin) : Bool := o.exportName == "default"

end Origin

/-- What a name in the module means for an import under that name. -/
inductive NameState where
  | satisfied
  | clash
  | free
  deriving DecidableEq, Repr

namespace Planner

variable {m : Type → Type} [Monad m]

/-- The outcome of a look-up for the module, all questions being asked of its project. -/
def ask {α : Type} (p : Planner m) (look : Planner Query → Query α) : m α :=
  (look { p with project := .asking p.project.bound }).run p.project

/-- The path of the module that a specifier stands for. -/
def resolve (p : Planner m) (specifier : String) : m (Option Path) :=
  p.project.resolve specifier p.main.path

/-- Where a declaration can be imported from, if it is exported. -/
def originOf? (p : Planner m) (d : TypeDeclaration) : m (Option Origin) := do
  match d.kind, d.exportName with
  | .typeParameter, _ => return none
  | _, none => return none
  | _, some exportName =>
    match d.modulePath, d.moduleSpecifier with
    | some path, _ =>
      return some ⟨← p.project.specifier path p.main.path, some path, exportName⟩
    | none, some specifier => return some ⟨specifier, ← p.resolve specifier, exportName⟩
    | none, none => return none

/-- What tells declarations of all modules apart. -/
def declarationKey (p : Planner m) (d : TypeDeclaration) : m (String × String) := do
  match d.modulePath with
  | some path => return (path.text, d.name)
  | none =>
    let specifier := d.moduleSpecifier.getD ""
    let resolved ← if specifier = "" then pure none else p.resolve specifier
    return (moduleKey resolved specifier, d.name)

/-- The name of the type that an export of a module stands for. -/
def exportedTypeName? (p : Planner m) (module : Path) (exported : String) :
    m (Option String) := do
  match ← p.project.index module with
  | none => return none
  | some i =>
    match ← p.project.resolveExport i exported with
    | none => return none
    | some declared =>
      return (declared.module.type? declared.localName).bind fun (f : Focus) =>
        (f.node.child? .name).map Node.text

/-- Whether an import of a value brings in a declaration. -/
def bringsIn (p : Planner m) (existing : ExistingImport) (imported : Imported)
    (d : TypeDeclaration) (o : Origin) : m Bool := do
  let exported := match imported with
    | .whole => "*"
    | .name exported => exported
  let declared ← match existing.resolved with
    | some path => p.exportedTypeName? path exported
    | none => pure none
  match declared with
  | some name => return name == d.name
  | none => return existing.moduleKey == o.moduleKey && exported == o.exportName

/-- What a name in the module means for the import of a declaration. -/
def stateOf (p : Planner m) (d : TypeDeclaration) (o : Origin) (localName : String) :
    m NameState := do
  match p.main.importOf? localName with
  | some (existing, binding) =>
    let same ← if binding.typeOnly then do
        match ← p.project.declareType p.main localName none with
        | some bound => pure ((← p.declarationKey bound) == (← p.declarationKey d))
        | none => pure false
      else p.bringsIn existing binding.imported d o
    return if same then .satisfied else .clash
  | none => return if p.main.names.contains localName then .clash else .free

/-- Adds to a plan what is needed to name a declaration. -/
def planDeclaration (p : Planner m) (plan : ImportPlan) (d : TypeDeclaration) :
    m ImportPlan := do
  if d.kind = .typeParameter then return plan.block d.name
  if d.modulePath = some p.main.path then return plan.satisfy d.name
  match ← p.originOf? d with
  | none => return plan.block d.name
  | some o =>
    let localName := if o.isDefault then d.name else o.exportName
    match ← p.stateOf d o localName with
    | .satisfied => return plan.satisfy localName
    | .clash => return plan.block localName
    | .free => return plan.add {
        specifier := o.specifier, imported := o.exportName
        kind := if o.isDefault then .default else .named, localName, resolved := o.path }

/-- What is needed to name all parts of a type. -/
def planType (p : Planner m) (plan : ImportPlan) (t : TypeExpr) : m ImportPlan :=
  t.declarations.foldlM p.planDeclaration plan

/-- Whether an import brings in a hook of the rendering library. -/
def bringsInHook (p : Planner m) (hook : String) : List ExistingImport → m Bool
  | [] => return false
  | i :: rest => do
    if i.binding? hook = some ⟨.name hook, false⟩ then
      if Specifier.runtime i.specifier = reactModule then return true
      else if i.resolved = (← p.resolve reactModule) then return true
      else bringsInHook p hook rest
    else bringsInHook p hook rest

/-- Adds to a plan what is needed to call a hook. -/
def planHook (p : Planner m) (plan : ImportPlan) (hook : String) : m ImportPlan := do
  if ← p.bringsInHook hook p.main.imports then return plan.satisfy hook
  return plan.add {
    specifier := reactModule, imported := hook, kind := .named, localName := hook
    resolved := ← p.resolve reactModule, typeOnly := false }

end Planner

namespace ImportEntry

/-- Whether a request can be added to an import. -/
def accepts (i : ExistingImport) (r : ImportRequest) : Bool :=
  i.moduleKey == r.moduleKey && (!i.typeOnly || r.typeOnly) &&
    match r.kind with
    | .named => i.starName.isNone
    | .default => i.defaultName.isNone || i.defaultName == some r.localName
    | .namespace => true

/-- An entry for an import that is there. -/
def ofExisting (i : ExistingImport) (r : ImportRequest) : ImportEntry :=
  { key := r.moduleKey, specifier := Specifier.prefer i.specifier r.specifier, quote := i.quote
    semicolon := i.semicolon, span := some (i.start, i.stop), typeOnly := i.typeOnly
    defaultName := i.defaultName, starName := i.starName, named := i.named }

/-- An entry for a new import, written like the first import of the file. -/
def ofRequest (existing : List ExistingImport) (r : ImportRequest) : ImportEntry :=
  let plain : ImportEntry :=
    { key := r.moduleKey, specifier := Specifier.runtime r.specifier }
  match existing.head? with
  | some i => { plain with quote := i.quote, semicolon := i.semicolon }
  | none => plain

/-- The entries for all requests of a plan, one for each import that is there or will be. -/
def ofPlan (existing : List ExistingImport) (plan : ImportPlan) : List ImportEntry :=
  (plan.requests.foldl (fun entries r =>
    let host := existing.find? (accepts · r)
    let start := match host with
      | some i => ofExisting i r
      | none => ofRequest existing r
    upsert (r.moduleKey, host.map (·.start)) (fun e => (e.getD start).addRequest r) entries)
    []).map (·.2)

end ImportEntry

end StableProps

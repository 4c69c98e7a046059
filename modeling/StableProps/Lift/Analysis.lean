import StableProps.Lift.Finding
import StableProps.Patch.Anchor
import StableProps.Patch.Assemble
import StableProps.Patch.Declaration
import StableProps.Props.Binding
import StableProps.Text.Reindent

/-!
# Analysing a module

One pass looks at all sites of a module in order. New names and constants are shared by the sites
of a pass, so that suggestions can be applied together: no name is given twice, and values with the
same text become one constant.
-/

namespace StableProps

/-- The module under analysis. -/
structure Analysis (m : Type → Type) where
  planner : Planner m
  options : Options

/-- A constant that was suggested for a text. -/
structure NewConstant where
  name : String
  insertion : Insertion
  imports : List ImportEntry

/-- What the sites of a pass share. -/
structure Pass where
  /-- Names given so far. -/
  names : List String := []
  /-- Constants by the text of their value. -/
  constants : List (String × NewConstant) := []

namespace Analysis

variable {m : Type → Type} [Monad m] [MonadExceptOf Failure m]

/-- The source of the module. -/
def source (a : Analysis m) : Source := a.planner.main.source

/-- The outcome of a step that can fail. -/
def lift {α : Type} : Except Failure α → m α
  | .ok x => pure x
  | .error f => throw f

/-- The edit that puts a name in place of a value. -/
def replacement (s : Site) (name : String) : Edit :=
  { start := s.expression.node.start, stop := s.expression.node.stop, text := name }

/-- All names that a new name at a site must differ from. -/
def visibleNames (a : Analysis m) (s : Site) : List String :=
  a.planner.main.scopes.visibleNames s.expression ++ a.planner.main.names

/-- A new name for a site. -/
def newName (a : Analysis m) (s : Site) (strategy : Strategy) (pass : Pass) : String × Pass :=
  let (name, names) := FreshName.reserve pass.names (s.canonicalName strategy) (a.visibleNames s)
  (name, { pass with names })

/-- The type of a new binding, if types are asked for. -/
def bindingType (a : Analysis m) (s : Site) (callback : Bool) : m BindingType :=
  if a.options.typeDefinitions then a.planner.bindingType s callback else return {}

/-- The import declarations for a plan. -/
def entries (a : Analysis m) (plan : ImportPlan) : List ImportEntry :=
  ImportEntry.ofPlan a.planner.main.imports plan

/-- The text of the value of a site under an indentation. -/
def expressionText (a : Analysis m) (s : Site) (indent : String) : String :=
  s.expression.node.reindented a.source.bytes indent

/-- The draft that keeps a value by a hook, if there is a place for one. -/
def hookDraft (a : Analysis m) (s : Site) (references : List Reference) (pass : Pass) :
    m (Option Draft × Pass) := do
  match HookAnchor.find? a.source.bytes s.component s.expression references with
  | none => return (none, pass)
  | some anchor =>
    let (name, pass) := a.newName s .hook pass
    let typed ← a.bindingType s (s.hook == .callback)
    let plan ← a.planner.ask (·.planHook {} s.hook.name)
    let declaration := Declaration.hook name s.hook typed.text (a.expressionText s anchor.indent)
      (Reference.hookDependencies references)
    let parts : FixParts := {
      replacements := [replacement s name]
      insertions := [anchor.insertion declaration]
      imports := a.entries (plan.merge typed.plan) }
    return (some { name, keeping := .hook s.hook, parts }, pass)

/-- The constant for the value of a site, a new one if the text is met for the first time. -/
def newConstant (a : Analysis m) (s : Site) (pass : Pass) : m (NewConstant × Pass) := do
  match pass.constants.lookup s.expression.node.text with
  | some known => return (known, pass)
  | none =>
    let (name, pass) := a.newName s .constant pass
    let typed ← a.bindingType s false
    let declaration := Declaration.constant name typed.text (a.expressionText s "")
    let constant : NewConstant := {
      name
      insertion := a.source.constantInsertion declaration a.options.position
      imports := a.entries typed.plan }
    return (constant,
      { pass with constants := (s.expression.node.text, constant) :: pass.constants })

/-- The draft that keeps a value by a constant. A constant that the module has is used again. -/
def constantDraft (a : Analysis m) (s : Site) (pass : Pass) : m (Draft × Pass) := do
  match a.source.constants.lookup s.expression.node.text with
  | some name =>
    return ({ name, keeping := .constant, parts := { replacements := [replacement s name] } }, pass)
  | none =>
    let (constant, pass) ← a.newConstant s pass
    let parts : FixParts := {
      replacements := [replacement s constant.name]
      insertions := [constant.insertion]
      imports := constant.imports }
    return ({ name := constant.name, keeping := .constant, parts }, pass)

/-- The draft that a strategy gives for a site. -/
def draft (a : Analysis m) (s : Site) (references : List Reference) (pass : Pass) :
    Strategy → m (Option Draft × Pass)
  | .hook => a.hookDraft s references pass
  | .constant => do
    let (d, pass) ← a.constantDraft s pass
    return (some d, pass)

/-- A draft with its edits. -/
def suggestion (a : Analysis m) (d : Draft) : m Suggestion := do
  return { d with edits := ← lift (Patch.assemble a.source [d.parts]) }

/-- The suggestions for a site, in the order of the strategies. -/
def suggestions (a : Analysis m) (s : Site) (references : List Reference) :
    List Strategy → Pass → m (List Suggestion × Pass)
  | [], pass => return ([], pass)
  | strategy :: rest, pass => do
    let (d, pass) ← a.draft s references pass strategy
    let found ← d.toList.mapM a.suggestion
    let (more, pass) ← suggestions a s references rest pass
    return (found ++ more, pass)

/-- The finding at a site with its suggestions. -/
def finding (a : Analysis m) (s : Site) (suggestions : List Suggestion) : Finding :=
  let n := s.expression.node
  let (line, column) := a.source.bytes.position n.start
  { path := a.source.path, category := s.category, attributeName := s.attributeName, line, column
    element := s.tagName, start := n.start, stop := n.stop, suggestions }

/-- The finding at a site, unless its value cannot be kept. -/
def analyzeSite (a : Analysis m) (s : Site) (pass : Pass) : m (Option Finding × Pass) := do
  match ← a.planner.ask fun p => p.project.references p.main s.expression s.component with
  | .error _ => return (none, pass)
  | .ok references =>
    let (found, pass) ←
      a.suggestions s references (Strategy.choose s.category references) pass
    return (some (a.finding s found), pass)

/-- The findings of several sites. -/
def analyzeSites (a : Analysis m) : List Site → Pass → m (List Finding)
  | [], _ => return []
  | s :: rest, pass => do
    let (found, pass) ← a.analyzeSite s pass
    return found.toList ++ (← analyzeSites a rest pass)

/-- The findings of a module. -/
def findings (a : Analysis m) : m (List Finding) :=
  a.analyzeSites (Site.all a.source a.options (IgnoreList.ofEntries a.options.ignored)) {}

end Analysis

end StableProps

import StableProps.Module.Index
import StableProps.Types.Build

/-!
# Projects

A project answers which module a path holds, which module a specifier stands for and by which
specifier a module is imported. All answers may be given in any monad, so that look-ups through
several modules can be asked of a fixed project, of one that fails, or of one that remembers what it
has read. Exports are followed from
module to module until one declares the name; a way that comes back to where it was ends there.
-/

namespace StableProps

/-- A set of modules that refer to each other. -/
structure Project (m : Type → Type) where
  /-- The module at a path. -/
  index : Path → m (Option ModuleIndex)
  /-- The path of the module that a specifier in a file stands for. -/
  resolve : String → Path → m (Option Path)
  /-- The specifier of the module at the first path for imports in the file at the second one. -/
  specifier : Path → Path → m String
  /-- More than the pairs of a module and a name in it, and so more than the steps of any way
  through the modules that does not come back to where it was. -/
  bound : Nat

/-- A name declared in a module. -/
structure Declared where
  module : ModuleIndex
  localName : String

namespace Project

variable {m : Type → Type} [Monad m]

/-- The project in which one module is as given. -/
def withModule (p : Project m) (i : ModuleIndex) : Project m :=
  { p with
    index := fun path => if path = i.path then pure (some i) else p.index path
    bound := (p.bound + 1) * (p.bound + i.source.text.utf8ByteSize + 1) }

/-- The module at a path, if there is a path. -/
def index? (p : Project m) : Option Path → m (Option ModuleIndex)
  | none => return none
  | some path => p.index path

/-- The module that a specifier in another module stands for. -/
def target? (p : Project m) (i : ModuleIndex) (specifier : String) : m (Option ModuleIndex) := do
  p.index? (← p.resolve specifier i.path)

/-- The first answer that several modules give. -/
def firstAnswer (p : Project m) (i : ModuleIndex) (ask : ModuleIndex → m (Option α)) :
    List String → m (Option α)
  | [] => return none
  | specifier :: rest => do
    match ← p.target? i specifier with
    | none => firstAnswer p i ask rest
    | some target =>
      match ← ask target with
      | some answer => return some answer
      | none => firstAnswer p i ask rest

/-- Where an imported name is declared, given how exports are followed. -/
def followVia (p : Project m) (onward : ModuleIndex → String → m (Option Declared))
    (i : ModuleIndex) (localName : String) : m (Option Declared) := do
  match i.importOf? localName with
  | some (existing, ⟨.name exported, _⟩) =>
    match ← p.index? existing.resolved with
    | some target => onward target exported
    | none => return none
  | _ => return none

/-- Follows an export, the exports passed on the way being given. -/
def resolveExportFrom (p : Project m) :
    Nat → List (Path × String) → ModuleIndex → String → m (Option Declared)
  | 0, _, _, _ => return none
  | fuel + 1, passed, i, name => do
    if passed.contains (i.path, name) then return none
    let onward := resolveExportFrom p fuel ((i.path, name) :: passed)
    match i.export? name with
    | some entry =>
      match entry.source, entry.localName with
      | some source, _ =>
        match ← p.target? i source with
        | some target => onward target ((entry.imported.filter (· ≠ "")).getD name)
        | none => return none
      | none, none => return none
      | none, some localName =>
        match ← p.followVia onward i localName with
        | some declared => return some declared
        | none => return some ⟨i, localName⟩
    | none =>
      if name = "default" then return none
      else p.firstAnswer i (onward · name) i.starExports

/-- The module and the name in it that an export stands for. -/
def resolveExport (p : Project m) (i : ModuleIndex) (name : String) : m (Option Declared) :=
  p.resolveExportFrom p.bound [] i name

/-- The module and the name in it that an imported name stands for. -/
def followImport (p : Project m) (i : ModuleIndex) (localName : String) : m (Option Declared) :=
  p.followVia p.resolveExport i localName

end Project

/-- The package of the rendering library. -/
def reactModule : String := "react"

namespace ModuleIndex

/-- The declaration of a type at the top of the module. -/
def declaration? (i : ModuleIndex) (name : String) : Option TypeDeclaration :=
  (i.type? name).map fun (f : Focus) =>
    { name, kind := (DeclarationKind.ofNode? f.node).getD .alias, modulePath := i.path
      exportName := i.exportNameOf? name, place := f }

/-- The declaration of a type in a scope inside the module. -/
def innerDeclaration? (i : ModuleIndex) (name : String) (context : Focus) :
    Option TypeDeclaration := do
  let symbol ← i.scopes.lookup context name .type
  if some symbol.scope = i.scopes.rootScope?.map Scope.id then none
  else
    return {
      name, kind := (DeclarationKind.ofNode? symbol.declaration.node).getD .alias
      modulePath := i.path, place := symbol.declaration }

end ModuleIndex

/-- Whether a node has a type parameter of a name. -/
def Node.hasTypeParameter (n : Node) (name : String) : Bool :=
  match n.child? .typeParameters with
  | some ps => ps.namedChildren.any fun p => (p.child? .name).any (·.text == name)
  | none => false

/-- Whether a name is a type parameter at a place. -/
def Focus.isTypeParameter (f : Focus) (name : String) : Bool :=
  f.outward.any (·.node.hasTypeParameter name)

/-- The declaration of a name whose module could not be read. A module by a relative path that
leads nowhere cannot be imported from elsewhere. -/
def ExistingImport.externalDeclaration (i : ExistingImport) (exported localName : String) :
    TypeDeclaration :=
  let name := if exported = "default" then localName else exported
  match i.resolved with
  | some path => { name, kind := .external, modulePath := path, exportName := exported }
  | none =>
    if Text.startsWith i.specifier "." then
      { name, kind := .external, moduleSpecifier := i.specifier }
    else
      { name, kind := .external, moduleSpecifier := Specifier.runtime i.specifier
        exportName := exported }

namespace Project

variable {m : Type → Type} [Monad m]

/-- The declaration of a type that a module exports. -/
def exportedType? (p : Project m) (i : ModuleIndex) (exported : String) :
    m (Option TypeDeclaration) := do
  match ← p.resolveExport i exported with
  | some declared => return declared.module.declaration? declared.localName
  | none => return none

/-- The declaration of an imported type. -/
def importedType? (p : Project m) (i : ModuleIndex) (name : String) :
    m (Option TypeDeclaration) := do
  match i.importOf? name with
  | some (existing, ⟨.name exported, _⟩) =>
    match ← p.index? existing.resolved with
    | some target =>
      match ← p.exportedType? target exported with
      | some d => return some d
      | none => return some (existing.externalDeclaration exported name)
    | none => return some (existing.externalDeclaration exported name)
  | _ => return none

/-- The declaration that a type name refers to at a place in a module. -/
def declareType (p : Project m) (i : ModuleIndex) (name : String) (context : Option Focus) :
    m (Option TypeDeclaration) := do
  if context.any (·.isTypeParameter name) then
    return some { name, kind := .typeParameter, modulePath := i.path }
  match i.declaration? name <|> context.bind (i.innerDeclaration? name) with
  | some d => return some d
  | none => p.importedType? i name

/-- The declaration of a member of the rendering library. -/
def externalMember (specifier name : String) : TypeDeclaration :=
  { name, kind := .external, moduleSpecifier := specifier, exportName := name }

/-- The declaration that a qualified type name refers to in a module. The rendering library has a
global name. -/
def declareQualified (p : Project m) (i : ModuleIndex) (qualifier name : String) :
    m (Option TypeDeclaration) := do
  match i.importOf? qualifier with
  | none => return if qualifier = "React" then some (externalMember reactModule name) else none
  | some (existing, binding) =>
    if !binding.imported.isModule then return none
    let specifier := Specifier.runtime existing.specifier
    match ← p.index? existing.resolved with
    | none => return some (externalMember specifier name)
    | some target =>
      match ← p.exportedType? target name with
      | some d => return some d
      | none =>
        return if specifier = reactModule then some (externalMember specifier name) else none

/-- Binds the names of types at a place in a module. -/
def binder (p : Project m) (i : ModuleIndex) (context : Focus) : Binder m :=
  fun name qualifier =>
    match qualifier with
    | some q => p.declareQualified i q name
    | none => p.declareType i name (some context)

/-- The type that is written at a place in a module. -/
def typeAt (p : Project m) (i : ModuleIndex) (f : Focus) : m TypeExpr :=
  TypeExpr.build (p.binder i f) f.node

end Project

end StableProps

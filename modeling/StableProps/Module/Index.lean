import StableProps.Import.Entry
import StableProps.Module.Resolver
import StableProps.Scope.Tree
import StableProps.Source

/-!
# What a module imports and exports

The statements at the top of a module are read once into lists of imports, exports and declared
types. Of several exports or types of one name the first counts.
-/

namespace StableProps

/-- An import declaration of a file. -/
structure ExistingImport where
  start : Nat
  stop : Nat
  specifier : String
  quote : String := "\""
  /-- The file of the module, where there is one. -/
  resolved : Option Path := none
  typeOnly : Bool := false
  defaultName : Option String := none
  starName : Option String := none
  named : List ImportedName := []
  semicolon : Bool := true

/-- What a local name stands for in the module it is imported from: the module as a whole, or the
export of a name. The default export has the name `default`. -/
inductive Imported where
  | whole
  | name (exported : String)
  deriving DecidableEq, Repr

/-- Whether a name stands for a module, so that members of it are exports. -/
def Imported.isModule : Imported → Bool
  | .whole => true
  | .name exported => exported == "default"

/-- A name that an import binds: what it stands for and whether it is only a type. -/
structure ImportBinding where
  imported : Imported
  typeOnly : Bool
  deriving DecidableEq, Repr

namespace ExistingImport

/-- What a local name stands for, if the import binds it. -/
def binding? (i : ExistingImport) (localName : String) : Option ImportBinding :=
  if i.defaultName = some localName then some ⟨.name "default", i.typeOnly⟩
  else if i.starName = some localName then some ⟨.whole, i.typeOnly⟩
  else (i.named.find? (·.localName == localName)).map fun n =>
    ⟨.name n.imported, i.typeOnly || n.typeOnly⟩

/-- What tells the module of an import from others. -/
def moduleKey (i : ExistingImport) : String := StableProps.moduleKey i.resolved i.specifier

/-- A name between the braces of an import. -/
def specifier? (n : Node) : Option ImportedName :=
  if n.is .importSpecifier then do
    let name ← n.child? .name
    return {
      imported := name.text
      localName := ((n.child? .alias).getD name).text
      typeOnly := n.hasToken "type" }
  else none

/-- Adds one part of an import clause. -/
def addPart (i : ExistingImport) (part : Node) : ExistingImport :=
  match part.kind? with
  | some .identifier => { i with defaultName := some part.text }
  | some .namespaceImport =>
    { i with starName := (part.childOf? .identifier).map Node.text }
  | some .namedImports => { i with named := i.named ++ part.namedChildren.filterMap specifier? }
  | _ => i

/-- Whether a text ends with a semicolon, not counting white space. -/
def endsInSemicolon (s : String) : Bool :=
  (s.toList.reverse.dropWhile Text.isBlank).head? == some ';'

/-- The text of a source without its quotes. -/
def sourceText (n : Node) : String := if 2 ≤ n.text.length then unquoted n.text else n.text

/-- The import that a statement declares, with modules found by a resolver. -/
def ofStatement (resolve : String → Except Failure (Option Path)) (n : Node) :
    Except Failure (Option ExistingImport) :=
  match n.child? .source with
  | none => .ok none
  | some source => do
    let quote := String.ofList (source.text.toList.take 1)
    let plain : ExistingImport := {
      start := n.start
      stop := n.stop
      specifier := sourceText source
      quote := if quote = "'" || quote = "\"" then quote else "\""
      resolved := ← resolve (sourceText source)
      typeOnly := n.hasToken "type"
      semicolon := endsInSemicolon n.text }
    let parts := ((n.childOf? .importClause).map Node.namedChildren).getD []
    return some (parts.foldl addPart plain)

end ExistingImport

/-- A name that a module exports. -/
structure ExportEntry where
  name : String
  /-- The name in the module itself. -/
  localName : Option String := none
  /-- The specifier of the module it is passed on from. -/
  source : Option String := none
  /-- Its name in that module. -/
  imported : Option String := none
  deriving DecidableEq, Repr

/-- Sorts of type declarations. -/
inductive DeclarationKind where
  | interface
  | alias
  | classDefinition
  | enumeration
  | typeParameter
  | external
  deriving DecidableEq, Repr

namespace DeclarationKind

/-- The word that reports use for a sort of type declaration. -/
def name : DeclarationKind → String
  | .interface => "interface"
  | .alias => "alias"
  | .classDefinition => "class"
  | .enumeration => "enum"
  | .typeParameter => "type_parameter"
  | .external => "external"

/-- The sort of a declaring statement. -/
def ofNode? (n : Node) : Option DeclarationKind :=
  match n.kind? with
  | some .interfaceDeclaration => some .interface
  | some .typeAliasDeclaration => some .alias
  | some .classDeclaration => some .classDefinition
  | some .abstractClassDeclaration => some .classDefinition
  | some .enumDeclaration => some .enumeration
  | _ => none

end DeclarationKind

/-- What one statement adds to the index of a module. -/
inductive ModuleItem where
  | exported (entry : ExportEntry)
  | star (specifier : String)
  | type (name : String) (declaration : Focus)

namespace ModuleItem

/-- The type that a statement declares. -/
def typesOf (f : Focus) : List ModuleItem :=
  if (DeclarationKind.ofNode? f.node).isSome then
    (f.node.child? .name).toList.map fun name => .type name.text f
  else []

/-- The names that a declaration declares. -/
def declaredNames (n : Node) : List String :=
  if n.isOneOf [.lexicalDeclaration, .variableDeclaration] then
    (n.namedChildren.filter (·.is .variableDeclarator)).filterMap fun d =>
      ((d.child? .name).filter (·.is .identifier)).map Node.text
  else (n.child? .name).toList.map Node.text

/-- The exports of a declaration. -/
def ofDeclaration (isDefault : Bool) (f : Focus) : List ModuleItem :=
  let names := declaredNames f.node
  let entries := names.map fun name =>
    { name := if isDefault then "default" else name, localName := some name : ExportEntry }
  let nameless := if isDefault && names.isEmpty then [{ name := "default" : ExportEntry }] else []
  typesOf f ++ (entries ++ nameless).map .exported

/-- The export of one name between braces. -/
def ofSpecifier? (source : Option String) (n : Node) : Option ModuleItem :=
  if n.is .exportSpecifier then do
    let name ← n.child? .name
    let exported := ((n.child? .alias).getD name).text
    match source with
    | some source => some (.exported { name := exported, source, imported := name.text })
    | none => some (.exported { name := exported, localName := name.text })
  else none

/-- What an export statement adds. -/
def ofExport (f : Focus) : List ModuleItem :=
  let n := f.node
  let isDefault := n.hasToken "default"
  let source := (n.child? .source).map ExistingImport.sourceText
  match f.child? .declaration with
  | some d => ofDeclaration isDefault d
  | none =>
    if isDefault then
      let value := (n.child? .value).filter (·.is .identifier)
      [.exported { name := "default", localName := value.map Node.text }]
    else match n.childOf? .exportClause with
      | none => source.toList.map .star
      | some clause => clause.namedChildren.filterMap (ofSpecifier? source)

/-- What a statement adds. -/
def ofStatement (f : Focus) : List ModuleItem :=
  match f.node.kind? with
  | some .exportStatement => ofExport f
  | some .ambientDeclaration => f.namedChildren.flatMap typesOf
  | _ => typesOf f

/-- The export among items. -/
def export? : ModuleItem → Option ExportEntry
  | .exported e => some e
  | _ => none

/-- The module that all names are passed on from. -/
def star? : ModuleItem → Option String
  | .star s => some s
  | _ => none

/-- The type among items. -/
def type? : ModuleItem → Option (String × Focus)
  | .type name f => some (name, f)
  | _ => none

end ModuleItem

/-- A module with all it imports and exports. -/
structure ModuleIndex where
  source : Source
  scopes : ScopeTree
  imports : List ExistingImport
  /-- Exports in the order of the statements, names being distinct. -/
  exports : List ExportEntry
  /-- Specifiers of modules all names are passed on from. -/
  starExports : List String
  /-- Types declared at the top with the statements that declare them. -/
  types : List (String × Focus)

namespace ModuleIndex

/-- The path of the module. -/
def path (m : ModuleIndex) : Path := m.source.path

/-- Reads the index of a source, with modules found by a resolver. -/
def ofSource (resolve : String → Path → Except Failure (Option Path)) (s : Source) :
    Except Failure ModuleIndex := do
  let statements := s.root.namedChildren.filter (·.is .importStatement)
  let imports ← statements.mapM (ExistingImport.ofStatement fun spec => resolve spec s.path)
  let items := s.focus.namedChildren.flatMap ModuleItem.ofStatement
  return {
    source := s
    scopes := ScopeTree.ofModule s.root
    imports := imports.filterMap id
    exports := distinctBy (·.name) (items.filterMap ModuleItem.export?)
    starExports := items.filterMap ModuleItem.star?
    types := distinctBy (·.1) (items.filterMap ModuleItem.type?) }

/-- The export of a name. -/
def export? (m : ModuleIndex) (name : String) : Option ExportEntry :=
  m.exports.find? (·.name == name)

/-- The statement that declares a type. -/
def type? (m : ModuleIndex) (name : String) : Option Focus := m.types.lookup name

/-- The name by which something is exported; a name of its own wins over the default. -/
def exportNameOf? (m : ModuleIndex) (localName : String) : Option String :=
  let names := (m.exports.filter (·.localName == some localName)).map (·.name)
  names.find? (· != "default") <|> names.head?

/-- The import that binds a name, and what the name stands for. -/
def importOf? (m : ModuleIndex) (localName : String) : Option (ExistingImport × ImportBinding) :=
  m.imports.findSome? fun i => (i.binding? localName).map (i, ·)

/-- The value declared at the top of the module under a name. -/
def value? (m : ModuleIndex) (name : String) : Option Symbol := m.scopes.moduleValues.lookup name

/-- All names bound at the top of the module. -/
def names (m : ModuleIndex) : List String :=
  m.scopes.moduleValues.map (·.1) ++ m.scopes.moduleTypes.map (·.1)

end ModuleIndex

end StableProps

import StableProps.Import.Specifier
import StableProps.Module.Config

/-!
# Finding modules

A specifier that starts with a dot or a slash is a path. Others are tried by the patterns of the
configuration, from its base directory, and last as packages. A path leads to a module by adding an
extension or the name of an index file. Looking for a module by a path without a name fails, since
there is nothing that an extension could be added to.
-/

namespace StableProps

/-- Extensions of modules in the order they are tried. -/
def moduleExtensions : List String := [".tsx", ".ts", ".d.ts", ".jsx", ".js"]

/-- The files that a path may stand for, in the order they are tried. A path without a name stands
for none. -/
def Path.moduleFiles (base : Path) : List Path :=
  if base.name = "" then []
  else
    (if moduleExtensions.any (Specifier.endsWith base.name) then [base] else []) ++
      moduleExtensions.map base.addSuffix ++
      moduleExtensions.map fun e => base.append ("index" ++ e)

/-- The module that a path stands for. The path must have a name. -/
def FileTree.moduleAt? (t : FileTree) (base : Path) : Except Failure (Option Path) :=
  if base.name = "" then .error (.nameless base)
  else .ok ((base.moduleFiles.find? t.isFile).map FileTree.resolve)

/-- Whether a path stands for a module. -/
def FileTree.leadsTo (t : FileTree) (base target : Path) : Bool :=
  match t.moduleAt? base with
  | .ok found => found == some target
  | .error _ => false

/-- The module that one of several paths stands for, the first one that stands for any. -/
def FileTree.firstModule? (t : FileTree) (bases : List Path) : Except Failure (Option Path) :=
  bases.findSomeM? t.moduleAt?

/-- The parts of a list around the first star. -/
def splitAtStar : List Char → Option (List Char × List Char)
  | [] => none
  | '*' :: rest => some ([], rest)
  | c :: rest => (splitAtStar rest).map fun (before, after) => (c :: before, after)

/-- Finds modules in a file tree by the settings of a project. -/
structure Resolver where
  tree : FileTree
  config : Option Config

namespace Resolver

/-- What a star stands for when a specifier fits a pattern with one. -/
def starOf? (before after specifier : List Char) : Option (List Char) :=
  if before.isPrefixOf specifier && after.isSuffixOf specifier &&
      before.length + after.length ≤ specifier.length then
    some ((specifier.drop before.length).take (specifier.length - before.length - after.length))
  else none

/-- A text with all its stars replaced. -/
def fillStars (star : List Char) (target : String) : String :=
  String.ofList (target.toList.flatMap fun c => if c = '*' then star else [c])

/-- How specific a pattern is and the paths it gives for a specifier, if it fits. -/
def candidatesOf? (root : Path) (specifier pattern : String) (targets : List String) :
    Option (Nat × List Path) :=
  match splitAtStar pattern.toList with
  | some (before, after) =>
    (starOf? before after specifier.toList).map fun star =>
      (before.length, targets.map fun t => root.append (fillStars star t))
  | none =>
    if pattern = specifier then some (pattern.length + 1, targets.map root.append) else none

/-- The paths that the patterns of a configuration give for a specifier, the most specific ones
first. -/
def aliasCandidates (c : Config) (specifier : String) : List Path :=
  let found := c.paths.filterMap fun (pattern, targets) =>
    candidatesOf? c.aliasRoot specifier pattern targets
  (found.mergeSort fun a b => b.1 ≤ a.1).flatMap (·.2)

/-- The paths for which a package says its types are. -/
def typesEntries (data : Json) : List String :=
  ["types", "typings"].filterMap fun key => (data.get? key).bind Json.string?

/-- The module a package directory stands for. Its manifest must be an object if it is JSON. -/
def packageRoot (t : FileTree) (root : Path) (inside : String) : Except Failure (Option Path) :=
  if inside ≠ "" then t.moduleAt? (root.append inside)
  else
    let index := root.append "index"
    match t.read? (root.append "package.json") with
    | none => t.moduleAt? index
    | some text =>
      match Json.read? .manifest text with
      | none => t.moduleAt? index
      | some (.object members) =>
        t.firstModule? ((typesEntries (.object members)).map root.append ++ [index])
      | some _ => .error .malformedSetting

/-- The first module among several package directories. -/
def firstPackage (t : FileTree) (inside : String) : List Path → Except Failure (Option Path)
  | [] => .ok none
  | root :: roots => do
    match ← packageRoot t root inside with
    | some p => return some p
    | none => firstPackage t inside roots

/-- The directories that may hold a package, seen from a directory. -/
def packageRoots (t : FileTree) (package : String) (directory : Path) : List Path :=
  (directory.upward.flatMap fun d =>
    let modules := d.append "node_modules"
    let typings := modules.append "@types"
    [modules.append package, typings.append (Specifier.typesPackage package)]).filter t.isFolder

/-- The module of a package. -/
def resolvePackage (t : FileTree) (specifier : String) (directory : Path) :
    Except Failure (Option Path) :=
  let (package, inside) := Specifier.splitPackage specifier
  firstPackage t inside (packageRoots t package directory)

/-- The paths that the configuration gives for a specifier: those of the patterns, and last the one
in the base directory. -/
def settingPaths (r : Resolver) (specifier : String) : List Path :=
  match r.config with
  | none => []
  | some c => aliasCandidates c specifier ++ (c.baseUrl.map (·.append specifier)).toList

/-- The module that a specifier in a file stands for. -/
def resolve (r : Resolver) (specifier : String) (file : Path) : Except Failure (Option Path) := do
  if Text.startsWith specifier "." || Text.startsWith specifier "/" then
    r.tree.moduleAt? (file.parent.append specifier)
  else
    match ← r.tree.firstModule? (r.settingPaths specifier) with
    | some p => return some p
    | none => resolvePackage r.tree specifier file.parent

/-- The specifier of a module inside a package directory. -/
def packageSpecifier? (target : Path) : Option String :=
  let inner := (target.parts.reverse.takeWhile (· != "node_modules")).reverse
  if inner.length = target.parts.length then none
  else match inner with
    | [] => none
    | [package] => some package
    | scope :: package :: _ =>
      if scope = "@types" then some (Specifier.runtime ("@types/" ++ package))
      else if Text.startsWith scope "@" then some (scope ++ "/" ++ package)
      else some scope

/-- A pattern with its first star replaced. -/
def fillFirstStar (pattern filling : String) : String :=
  match splitAtStar pattern.toList with
  | some (before, after) => String.ofList (before ++ filling.toList ++ after)
  | none => pattern

/-- How specific the mapping of a pattern to a path is, and the specifier it gives for a module. -/
def aliasBy? (t : FileTree) (root target : Path) (pattern mapped : String) :
    Option (Nat × String) :=
  if pattern.toList.contains '*' then
    if Specifier.endsWith mapped "*" then
      let directory := (root.append (Specifier.dropLast mapped 1)).normalized
      (target.below? directory).map fun rest =>
        (directory.parts.length + 1,
          fillFirstStar pattern (Specifier.stripExtension (Path.text ⟨false, rest⟩)))
    else none
  else if t.leadsTo (root.append mapped) target then
    some (target.parts.length + 2, pattern)
  else none

/-- The most specific of several candidates, the first of equals. -/
def mostSpecific (found : List (Nat × String)) : Option (Nat × String) :=
  found.foldl (fun best c =>
    match best with
    | none => some c
    | some b => if b.1 < c.1 then some c else some b) none

/-- The specifier that the patterns of the configuration give for a module. -/
def aliasFor? (r : Resolver) (target : Path) : Option String := do
  let c ← r.config
  let found := c.paths.flatMap fun (pattern, targets) =>
    targets.filterMap (aliasBy? r.tree c.aliasRoot target pattern)
  return (← mostSpecific found).2

/-- The specifier of a module by the way to it. -/
def relativeSpecifier (target file : Path) : String :=
  let path := Specifier.stripExtension (target.relativeTo file.parent).text
  if Text.startsWith path "." then path else "./" ++ path

/-- The specifier by which a file imports a module, if all patterns can be tried. -/
def specifierFor (r : Resolver) (target file : Path) : String :=
  (packageSpecifier? target <|> r.aliasFor? target).getD (relativeSpecifier target file)

/-- The paths that patterns without a star are mapped to. -/
def exactPaths (c : Config) : List Path :=
  c.paths.flatMap fun (pattern, targets) =>
    if pattern.toList.contains '*' then [] else targets.map c.aliasRoot.append

/-- Tries all patterns without a star, whatever module they are tried for: each of the paths they
are mapped to is looked up. -/
def tryPatterns (r : Resolver) : Except Failure Unit :=
  (r.config.elim [] exactPaths).forM fun base => discard (r.tree.moduleAt? base)

/-- The specifier by which a file imports a module. All patterns are tried for a module outside of
packages. -/
def specifier (r : Resolver) (target file : Path) : Except Failure String := do
  if (packageSpecifier? target).isNone then r.tryPatterns
  return r.specifierFor target file

end Resolver

end StableProps

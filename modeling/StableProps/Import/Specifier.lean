import StableProps.Text.Split

/-!
# Module specifiers

The texts by which modules are imported. A package of typings has a specifier of its own, derived
from that of the package it describes; imports always use the package itself.
-/

namespace StableProps.Specifier

/-- What packages of typings start with. -/
def typings : String := "@types/"

/-- Whether a text ends with another one. -/
def endsWith (s tail : String) : Bool := tail.toList.isSuffixOf s.toList

/-- A text without its first characters. -/
def dropFirst (s : String) (n : Nat) : String := String.ofList (s.toList.drop n)

/-- A text without its last characters. -/
def dropLast (s : String) (n : Nat) : String := String.ofList (s.toList.take (s.length - n))

/-- The parts of a list around the first pair of underscores. -/
def splitAtUnderscores : List Char → Option (List Char × List Char)
  | [] => none
  | '_' :: '_' :: rest => some ([], rest)
  | c :: rest => (splitAtUnderscores rest).map fun (before, after) => (c :: before, after)

/-- The package that a specifier stands for when the program runs. -/
def runtime (specifier : String) : String :=
  if Text.startsWith specifier typings then
    let name := dropFirst specifier typings.length
    match splitAtUnderscores name.toList with
    | some (scope, package) => "@" ++ String.ofList scope ++ "/" ++ String.ofList package
    | none => name
  else specifier

/-- Of two specifiers for one module, the first unless only it names a package of typings. -/
def prefer (first second : String) : String :=
  if Text.startsWith first typings && !Text.startsWith second typings then second else first

/-- The package and the path inside of it. -/
def splitPackage (specifier : String) : String × String :=
  let parts := Text.split '/' specifier
  let n := if Text.startsWith specifier "@" && 1 < parts.length then 2 else 1
  (String.intercalate "/" (parts.take n), String.intercalate "/" (parts.drop n))

/-- A list with each slash written as two underscores. -/
def slashesToUnderscores : List Char → List Char
  | [] => []
  | c :: rest =>
    if c = '/' then '_' :: '_' :: slashesToUnderscores rest else c :: slashesToUnderscores rest

/-- The name of a package among the typings. -/
def typesPackage (package : String) : String :=
  if Text.startsWith package "@" then
    String.ofList (slashesToUnderscores (package.toList.drop 1))
  else package

/-- Extensions that specifiers leave out, longer ones first. -/
def implied : List String := [".d.ts", ".tsx", ".ts", ".jsx", ".js"]

/-- A path as a specifier: without its extension and without an index file at its end. -/
def stripExtension (path : String) : String :=
  let path := match implied.find? (endsWith path) with
    | some extension => dropLast path extension.length
    | none => path
  if endsWith path "/index" then dropLast path "/index".length else path

end StableProps.Specifier

/-!
# Source languages

Three grammars are understood. Two of them read markup elements; the third reads type assertions
in angle brackets instead.
-/

namespace StableProps

/-- A grammar a module can be written in. -/
inductive Language where
  | javascript
  | tsx
  | typescript
  deriving DecidableEq, Repr

namespace Language

/-- All languages, ordered by name. -/
def all : List Language := [.javascript, .tsx, .typescript]

/-- The name of a language. -/
def name : Language → String
  | .javascript => "javascript"
  | .tsx => "tsx"
  | .typescript => "typescript"

/-- Grammars that understand markup elements. -/
def hasMarkup : Language → Bool
  | .javascript => true
  | .tsx => true
  | .typescript => false

/-- Grammars that understand type annotations. -/
def hasTypes : Language → Bool
  | .javascript => false
  | .tsx => true
  | .typescript => true

/-- The extension of a file without a name of its own. -/
def defaultExtension : Language → String
  | .javascript => ".jsx"
  | .tsx => ".tsx"
  | .typescript => ".ts"

/-- The language that a short or long name stands for. -/
def ofName? (name : String) : Option Language :=
  if ["javascript", "js", "jsx"].contains name then some .javascript
  else if ["typescript", "ts"].contains name then some .typescript
  else if name = "tsx" then some .tsx
  else none

/-- The language of files with an extension, which is given in lower case with its dot. -/
def ofExtension? (extension : String) : Option Language :=
  if [".cjs", ".js", ".jsx", ".mjs"].contains extension then some .javascript
  else if [".cts", ".mts", ".ts"].contains extension then some .typescript
  else if extension = ".tsx" then some .tsx
  else none

end Language

end StableProps

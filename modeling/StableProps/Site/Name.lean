import StableProps.Site.Basic

/-!
# Names of new declarations

A new declaration is named after its element and attribute. If the name is taken, the smallest
number that makes it free is put behind it.
-/

namespace StableProps

/-- How a fresh value is kept. -/
inductive Strategy where
  /-- By a hook in the component. -/
  | hook
  /-- By a constant of the module. -/
  | constant
  deriving DecidableEq, Repr

/-- The word that reports use for a strategy. -/
def Strategy.name : Strategy → String
  | .hook => "hook"
  | .constant => "top-level-constant"

/-- Whether an attribute handles an event. -/
def isEventName (s : String) : Bool :=
  match s.toList with
  | 'o' :: 'n' :: c :: _ => 'A' ≤ c && c ≤ 'Z'
  | _ => false

/-- The name of a declaration before it is made unique. -/
def Site.canonicalName (s : Site) : Strategy → String
  | .constant => s.host ++ pascalCase s.attributeName
  | .hook =>
    if s.category = .function ∧ isEventName s.attributeName then
      "handle" ++ Text.upperFirst s.host ++
        pascalCase (String.ofList (s.attributeName.toList.drop 2))
    else Text.lowerFirst (s.host ++ pascalCase s.attributeName)

namespace FreshName

/-- The `n`-th name to try. -/
def candidate (base : String) : Nat → String
  | 0 => base
  | n + 1 => base ++ toString (n + 1)

/-- The first candidate that is not taken, found in at most `fuel` steps. -/
def firstFree (taken : List String) (base : String) : Nat → Nat → String
  | 0, n => candidate base n
  | fuel + 1, n =>
    if taken.contains (candidate base n) then firstFree taken base fuel (n + 1)
    else candidate base n

/-- A name that is not taken. As candidates differ, one more try than there are taken names is
enough. -/
def choose (taken : List String) (base : String) : String := firstFree taken base taken.length 0

/-- Reserves a name that is neither visible nor reserved; it comes with all names reserved then. -/
def reserve (reserved : List String) (base : String) (visible : List String) :
    String × List String :=
  let name := choose (visible ++ reserved) base
  (name, name :: reserved)

end FreshName

end StableProps

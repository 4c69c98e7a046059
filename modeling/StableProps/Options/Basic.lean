import StableProps.Pattern.Read

/-!
# Options

What a search looks for, which components it leaves alone and how new declarations are written.
-/

namespace StableProps

/-- Where a new module constant is declared. -/
inductive Position where
  | start
  | end
  deriving DecidableEq, Repr

/-- The word for a position. -/
def Position.name : Position → String
  | .start => "start"
  | .end => "end"

/-- Which components are left alone. -/
inductive IgnoreEntry where
  /-- The component of a name. -/
  | exact (name : String)
  /-- All components whose name holds a match of a pattern. -/
  | pattern (text flags : String)
  deriving DecidableEq, Repr

/-- All settings of a search. -/
structure Options where
  checkFunction : Bool := true
  checkArray : Bool := true
  checkCall : Bool := true
  checkNew : Bool := true
  checkRegExp : Bool := true
  /-- Whether new declarations get type annotations. -/
  typeDefinitions : Bool := true
  /-- Components with shorter names are called by their class where possible. -/
  shortNameThreshold : Nat := 5
  ignored : List IgnoreEntry := []
  position : Position := .end
  deriving DecidableEq, Repr

/-- Entries made ready for testing names. -/
structure IgnoreList where
  exact : List String
  /-- Patterns with their texts. -/
  patterns : List (String × Pattern)

namespace IgnoreList

/-- Flags by their letters. Letters that make no difference to a single test are accepted. -/
def flags? (letters : String) : Option PatternFlags :=
  letters.toList.foldlM (fun flags c =>
    if c == 'i' then some { flags with ignoreCase := true }
    else if c == 'm' then some { flags with multiline := true }
    else if c == 's' then some { flags with dotAll := true }
    else if c == 'u' || c == 'g' || c == 'y' then some flags
    else none) {}

/-- The pattern of an entry, if its text and flags are valid. -/
def pattern? : IgnoreEntry → Option (String × Pattern)
  | .exact _ => none
  | .pattern text letters => do
    let flags ← flags? letters
    return (text, ← Pattern.read? flags text)

/-- The name of an entry. -/
def name? : IgnoreEntry → Option String
  | .exact name => some name
  | .pattern .. => none

/-- Makes entries ready; invalid patterns are left out. -/
def ofEntries (entries : List IgnoreEntry) : IgnoreList :=
  ⟨entries.filterMap name?, entries.filterMap pattern?⟩

/-- Whether anything is to be ignored. -/
def isActive (l : IgnoreList) : Bool := !l.exact.isEmpty || !l.patterns.isEmpty

/-- Whether a component of the name is ignored. -/
def covers (l : IgnoreList) (name : String) : Bool :=
  l.exact.contains name || l.patterns.any (·.2.found name)

end IgnoreList

end StableProps

import StableProps.Scope.Event

/-!
# Scopes of a module

The events of a visit are collected into scopes with two tables each, one for values and one for
types. A name is looked up from the inside out. A scope's tables list names in the order of their
first declaration; declaring a name again replaces the symbol in its place.
-/

namespace StableProps

/-- Names with their symbols in order of first declaration. -/
abbrev Table := List (String × Symbol)

namespace Table

/-- Enters a symbol under its name. -/
def declare (t : Table) (s : Symbol) : Table :=
  if t.any (·.1 == s.name) then t.map fun e => if e.1 == s.name then (e.1, s) else e
  else t ++ [(s.name, s)]

end Table

/-- The names declared in one region of a module. -/
structure Scope where
  /-- The node that opens the scope. -/
  opener : Focus
  /-- The numbers of the scopes around it, innermost first. -/
  outer : List Nat
  /-- Declared values. -/
  values : Table := []
  /-- Declared types. -/
  types : Table := []

namespace Scope

/-- The number of the scope. -/
def id (s : Scope) : Nat := s.opener.id

/-- The table of a namespace. -/
def table (s : Scope) : Namespace → Table
  | .value => s.values
  | .type => s.types

/-- Enters a symbol into the table of a namespace. -/
def declare (s : Scope) (symbol : Symbol) : Namespace → Scope
  | .value => { s with values := s.values.declare symbol }
  | .type => { s with types := s.types.declare symbol }

end Scope

/-- All scopes and symbols of a module. -/
structure ScopeTree where
  /-- Scopes in the order they open; the first is the module's own. -/
  scopes : List Scope
  /-- For each node that opens or stands for a scope, the number of that scope. -/
  homes : List (Nat × Nat)
  /-- Symbols by the number of their binding node. -/
  symbols : List (Nat × Symbol)

namespace ScopeTree

/-- The tree before anything was visited. -/
def empty : ScopeTree := ⟨[], [], []⟩

/-- Adds what an event says. -/
def record (t : ScopeTree) : Event → ScopeTree
  | .opened opener outer =>
    { t with
      scopes := t.scopes ++ [⟨opener, outer, [], []⟩]
      homes := t.homes ++ [(opener.id, opener.id)] }
  | .shared block scope => { t with homes := t.homes ++ [(block, scope)] }
  | .declared symbol spaces =>
    { t with
      scopes := t.scopes.map fun s =>
        if s.id == symbol.scope then spaces.foldl (fun s space => s.declare symbol space) s else s
      symbols := t.symbols ++ [(symbol.binding.id, symbol)] }

/-- The scopes of a module. -/
def ofModule (root : Node) : ScopeTree := (Event.ofModule root).foldl record empty

/-- The scope with a number. -/
def scope? (t : ScopeTree) (id : Nat) : Option Scope := t.scopes.find? (·.id == id)

/-- The scope a place belongs to. -/
def scopeFor? (t : ScopeTree) (f : Focus) : Option Scope :=
  (f.outward.findSome? fun g => t.homes.lookup g.id).bind t.scope?

/-- The scope of the module itself. -/
def rootScope? (t : ScopeTree) : Option Scope := t.scopes.head?

/-- A scope and all around it, innermost first. -/
def chain (t : ScopeTree) (s : Scope) : List Scope := s :: s.outer.filterMap t.scope?

/-- The scopes around a place, innermost first. -/
def chainFor (t : ScopeTree) (f : Focus) : List Scope :=
  match t.scopeFor? f with
  | some s => t.chain s
  | none => []

/-- Looks a name up from a place. -/
def lookup (t : ScopeTree) (f : Focus) (name : String) (space : Namespace) : Option Symbol :=
  (t.chainFor f).findSome? fun s => (s.table space).lookup name

/-- The symbol that a name at a place declares. -/
def declaredAt? (t : ScopeTree) (f : Focus) : Option Symbol := t.symbols.lookup f.id

/-- The symbol that a name at a place declares or refers to. -/
def resolve (t : ScopeTree) (f : Focus) : Option Symbol :=
  match t.declaredAt? f with
  | some s => some s
  | none => t.lookup f f.node.text .value

/-- All names that a look-up from a place would find, in either namespace. -/
def visibleNames (t : ScopeTree) (f : Focus) : List String :=
  (t.chainFor f).flatMap fun s => s.values.map (·.1) ++ s.types.map (·.1)

/-- The values declared at the top of the module. -/
def moduleValues (t : ScopeTree) : Table := (t.rootScope?.map Scope.values).getD []

/-- The types declared at the top of the module. -/
def moduleTypes (t : ScopeTree) : Table := (t.rootScope?.map Scope.types).getD []

end ScopeTree

end StableProps

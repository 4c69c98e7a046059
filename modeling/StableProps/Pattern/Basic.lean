import StableProps.Text.Blank
import StableProps.Text.Case
import StableProps.Text.Word

/-!
# Text patterns

A pattern describes texts by single characters, sequences, choices, repetitions, groups and tests
of the surroundings. `Pattern.ends` lists all places where a match that starts at a given place can
end, the preferred one first; a pattern is found in a text if some place has such an end.
-/

namespace StableProps

/-- Named sets of characters. -/
inductive CharClass where
  | digit
  | word
  | space
  deriving DecidableEq, Repr

/-- Whether a character belongs to a class; outside of all scripts only plain letters count. -/
def CharClass.contains (ascii : Bool) (k : CharClass) (c : Char) : Bool :=
  (!ascii || c.toNat < 128) &&
    match k with
    | .digit => Text.isDigit c
    | .word => Text.isWordChar c
    | .space => Text.isBlank c

/-- One part of a set of characters. -/
inductive CharItem where
  | range (first last : Char)
  | classOf (k : CharClass) (negated : Bool)
  deriving DecidableEq, Repr

/-- How characters and lines are compared. -/
structure PatternFlags where
  ignoreCase : Bool := false
  multiline : Bool := false
  dotAll : Bool := false
  ascii : Bool := false
  verbose : Bool := false
  deriving DecidableEq, Repr

/-- A set of characters. -/
structure CharSet where
  items : List CharItem
  negated : Bool
  ignoreCase : Bool
  ascii : Bool
  deriving DecidableEq, Repr

namespace CharSet

/-- A character with the characters that differ from it by case. -/
def variants (ignoreCase : Bool) (c : Char) : List Char :=
  if ignoreCase then [c, Text.shifted Text.lowerRuns c, Text.shifted Text.upperRuns c] else [c]

/-- Whether a character belongs to the set. -/
def contains (s : CharSet) (c : Char) : Bool :=
  let found := s.items.any fun
    | .range first last =>
      (variants s.ignoreCase c).any fun d => first.toNat ≤ d.toNat && d.toNat ≤ last.toNat
    | .classOf k negated => k.contains s.ascii c != negated
  found != s.negated

end CharSet

/-- Tests of a place that consume nothing. -/
inductive Anchor where
  | start
  | lineStart
  | end
  | lineEnd
  | textEnd
  | boundary (ascii negated : Bool)
  deriving DecidableEq, Repr

/-- A pattern. -/
inductive Pattern where
  | empty
  | one (s : CharSet)
  | anchor (a : Anchor)
  | seq (p q : Pattern)
  | alt (p q : Pattern)
  | times (p : Pattern) (least : Nat) (most : Option Nat) (greedy : Bool)
  | atomic (p : Pattern)
  | group (index : Nat) (p : Pattern)
  | same (index : Nat) (ignoreCase : Bool)
  | ahead (p : Pattern) (negated : Bool)
  | behind (p : Pattern) (width : Nat) (negated : Bool)
  | ifGroup (index : Nat) (p q : Pattern)
  deriving Repr, Inhabited

namespace Pattern

/-- The least and the greatest number of characters a match can have. -/
def width : Pattern → Nat × Option Nat
  | .empty => (0, some 0)
  | .one _ => (1, some 1)
  | .anchor _ => (0, some 0)
  | .seq p q =>
    let (a, b) := p.width
    let (c, d) := q.width
    (a + c, do return (← b) + (← d))
  | .alt p q => choice p.width q.width
  | .times p least most _ =>
    let (a, b) := p.width
    (a * least, do return (← b) * (← most))
  | .atomic p => p.width
  | .group _ p => p.width
  | .same _ _ => (0, none)
  | .ahead _ _ => (0, some 0)
  | .behind _ _ _ => (0, some 0)
  | .ifGroup _ p q => choice p.width q.width
where
  /-- The width of one of two patterns. -/
  choice (x y : Nat × Option Nat) : Nat × Option Nat :=
    (min x.1 y.1, do return max (← x.2) (← y.2))

/-- The one width all matches have. -/
def fixedWidth? (p : Pattern) : Option Nat :=
  let (least, most) := p.width
  if most = some least then some least else none

/-- A place in a text, with the texts that groups have matched on the way to it. -/
structure Place where
  /-- What stands before, the nearest character first. -/
  before : List Char
  /-- What stands behind. -/
  after : List Char
  /-- Matched groups, the latest first. -/
  groups : List (Nat × List Char)

namespace Place

/-- Whether a word starts or ends here. -/
def isBoundary (ascii : Bool) (s : Place) : Bool :=
  let isWord (c : Option Char) := c.any (CharClass.word.contains ascii)
  isWord s.before.head? != isWord s.after.head?

/-- Whether a test holds here. An empty text has neither a boundary nor a place without one. -/
def passes (s : Place) : Anchor → Bool
  | .start => s.before.isEmpty
  | .lineStart => s.before.isEmpty || s.before.head? == some '\n'
  | .end => s.after.isEmpty || s.after == ['\n']
  | .lineEnd => s.after.isEmpty || s.after.head? == some '\n'
  | .textEnd => s.after.isEmpty
  | .boundary ascii negated =>
    !(s.before.isEmpty && s.after.isEmpty) && s.isBoundary ascii != negated

/-- The place behind a given number of characters. -/
def forward (s : Place) (n : Nat) : Place :=
  { s with before := (s.after.take n).reverse ++ s.before, after := s.after.drop n }

/-- The place a number of characters before. -/
def backward? (s : Place) (n : Nat) : Option Place :=
  if s.before.length < n then none
  else some { s with before := s.before.drop n, after := (s.before.take n).reverse ++ s.after }

/-- The text from an earlier place to this one. -/
def since (s earlier : Place) : List Char :=
  earlier.after.take (earlier.after.length - s.after.length)

end Place

/-- The places reached by up to `rounds` more steps; a step that stays where it is ends the
repetition. -/
def repeated (step : Place → List Place) (greedy : Bool) : Nat → Place → List Place
  | 0, s => [s]
  | rounds + 1, s =>
    let further := (step s).flatMap fun t =>
      if t.after.length < s.after.length then repeated step greedy rounds t else []
    if greedy then further ++ [s] else s :: further

/-- The places reached by exactly `rounds` steps. -/
def exactly (step : Place → List Place) : Nat → Place → List Place
  | 0, s => [s]
  | rounds + 1, s => (step s).flatMap (exactly step rounds)

/-- Whether two characters are the same up to case. -/
def sameChar (ignoreCase : Bool) (c d : Char) : Bool :=
  c == d || (ignoreCase && Text.shifted Text.lowerRuns c == Text.shifted Text.lowerRuns d)

/-- Whether a text starts with another one, up to case. -/
def startsWith (ignoreCase : Bool) : List Char → List Char → Bool
  | _, [] => true
  | [], _ :: _ => false
  | c :: cs, d :: ds => sameChar ignoreCase c d && startsWith ignoreCase cs ds

/-- The places where a match that starts here can end, the preferred one first. -/
def ends : Pattern → Place → List Place
  | .empty, s => [s]
  | .one set, s =>
    match s.after with
    | [] => []
    | c :: _ => if set.contains c then [s.forward 1] else []
  | .anchor a, s => if s.passes a then [s] else []
  | .seq p q, s => (p.ends s).flatMap q.ends
  | .alt p q, s => p.ends s ++ q.ends s
  | .times p least most greedy, s =>
    (exactly p.ends least s).flatMap fun t =>
      let room := t.after.length
      repeated p.ends greedy (match most with
        | none => room
        | some n => min (n - least) room) t
  | .atomic p, s => (p.ends s).take 1
  | .group index p, s =>
    (p.ends s).map fun t => { t with groups := (index, t.since s) :: t.groups }
  | .same index ignoreCase, s =>
    match s.groups.lookup index with
    | none => []
    | some cs => if startsWith ignoreCase s.after cs then [s.forward cs.length] else []
  | .ahead p negated, s =>
    match p.ends s with
    | [] => if negated then [s] else []
    | t :: _ => if negated then [] else [{ s with groups := t.groups }]
  | .behind p width negated, s =>
    match (s.backward? width).map p.ends with
    | some (t :: _) => if negated then [] else [{ s with groups := t.groups }]
    | _ => if negated then [s] else []
  | .ifGroup index p q, s =>
    if (s.groups.lookup index).isSome then p.ends s else q.ends s

/-- Whether a match starts at a place or further on. -/
def foundFrom (p : Pattern) (before : List Char) : List Char → Bool
  | [] => !(p.ends ⟨before, [], []⟩).isEmpty
  | c :: cs => !(p.ends ⟨before, c :: cs, []⟩).isEmpty || foundFrom p (c :: before) cs

/-- Whether a text holds a match. -/
def found (p : Pattern) (text : String) : Bool := p.foundFrom [] text.toList

end Pattern

end StableProps

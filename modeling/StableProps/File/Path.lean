import StableProps.Text.Case
import StableProps.Text.Split

/-!
# Paths

A path is a list of parts, with or without a root. Empty parts and single dots are dropped when a
path is read, double dots stay until the path is resolved. Texts are compared part by part.
-/

namespace StableProps

/-- A path of a file or directory. -/
structure Path where
  /-- Whether the path starts at the root. -/
  rooted : Bool
  /-- Parts from the outside in. -/
  parts : List String
  deriving DecidableEq, Repr, Inhabited

namespace Path

/-- Reads a path. -/
def ofText (s : String) : Path :=
  ⟨Text.startsWith s "/", (Text.split '/' s).filter fun part => part != "" && part != "."⟩

/-- Writes a path. The path without parts is a dot. -/
def text (p : Path) : String :=
  if p.rooted then "/" ++ String.intercalate "/" p.parts
  else if p.parts.isEmpty then "." else String.intercalate "/" p.parts

/-- The second path as seen from the first; a rooted one stays as it is. -/
def join (p q : Path) : Path := if q.rooted then q else ⟨p.rooted, p.parts ++ q.parts⟩

/-- A path written as text, seen from this one. -/
def append (p : Path) (s : String) : Path := p.join (ofText s)

/-- The last part, empty if there is none. -/
def name (p : Path) : String := p.parts.getLast?.getD ""

/-- The path around this one. -/
def parent (p : Path) : Path := ⟨p.rooted, p.parts.dropLast⟩

/-- This directory and all around it, from the inside out. -/
def upward (p : Path) : List Path := go p.parts.length
where
  /-- The first `n` parts and all shorter paths. -/
  go : Nat → List Path
    | 0 => [⟨p.rooted, []⟩]
    | n + 1 => ⟨p.rooted, p.parts.take (n + 1)⟩ :: go n

/-- The path with more text at the end of its last part. -/
def addSuffix (p : Path) (suffix : String) : Path :=
  ⟨p.rooted, p.parts.dropLast ++ [p.name ++ suffix]⟩

/-- The extension of a file name with its dot: what follows the last dot, which must neither start
nor end the name. -/
def suffixOf (name : String) : String :=
  let cs := name.toList
  let tail := (cs.reverse.takeWhile (· != '.')).reverse
  if tail.isEmpty || cs.length ≤ tail.length + 1 then ""
  else String.ofList ('.' :: tail)

/-- The extension of a path. -/
def suffix (p : Path) : String := suffixOf p.name

/-- The extension in lower case. -/
def lowerSuffix (p : Path) : String := Text.lowerAll p.suffix

/-- Removes double dots together with the parts before them; above the root there is nothing. -/
def normalized (p : Path) : Path := ⟨p.rooted, (p.parts.foldl step []).reverse⟩
where
  /-- One part further, the parts so far being reversed. -/
  step (parts : List String) (part : String) : List String :=
    if part = ".." then parts.drop 1 else part :: parts

/-- The part of a path below a directory. -/
def below? (p directory : Path) : Option (List String) :=
  if p.rooted = directory.rooted ∧ directory.parts.isPrefixOf p.parts then
    some (p.parts.drop directory.parts.length)
  else none

/-- How many parts two lists share at their front. -/
def sharedLength : List String → List String → Nat
  | a :: as, b :: bs => if a = b then sharedLength as bs + 1 else 0
  | _, _ => 0

/-- The way from a directory to a path, both starting at the root. -/
def relativeTo (p directory : Path) : Path :=
  let target := p.normalized.parts
  let start := directory.normalized.parts
  let n := sharedLength target start
  ⟨false, List.replicate (start.length - n) ".." ++ target.drop n⟩

/-- Paths are ordered part by part. -/
def le (p q : Path) : Bool :=
  if p.rooted = q.rooted then !(decide (q.parts < p.parts)) else p.rooted

end Path

end StableProps

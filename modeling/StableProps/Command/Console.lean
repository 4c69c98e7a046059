/-!
# Text for the console

Printed text is marked up: a tag in brackets starts or ends a style and is not shown itself. A tag
starts with a small letter or one of three signs; brackets around anything else are plain text.
-/

namespace StableProps.Console

/-- Characters that a tag can start with. -/
def startsTag (c : Char) : Bool := ('a' ≤ c && c ≤ 'z') || c == '#' || c == '/' || c == '@'

/-- How long a tag is, up to its closing bracket, when its opening bracket has been read. -/
def tagLength? (cs : List Char) : Option Nat :=
  if cs.head?.any startsTag then
    let inside := cs.takeWhile fun c => c != ']' && c != '['
    if (cs.drop inside.length).head? = some ']' then some (inside.length + 1) else none
  else none

/-- Marked-up characters without their tags, the first of them being left out. -/
def shownAfter : Nat → List Char → List Char
  | _, [] => []
  | n + 1, _ :: rest => shownAfter n rest
  | 0, c :: rest =>
    if c = '[' then
      match tagLength? rest with
      | some n => shownAfter n rest
      | none => c :: shownAfter 0 rest
    else c :: shownAfter 0 rest

/-- What a marked-up text shows. -/
def shown (markup : String) : String := String.ofList (shownAfter 0 markup.toList)

end StableProps.Console

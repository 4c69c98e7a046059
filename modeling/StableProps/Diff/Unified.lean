import StableProps.Diff.Blocks

/-!
# Unified differences

Changes between two texts with three lines around each of them. Changes that are close to each
other share a hunk.
-/

namespace StableProps.Diff

/-- A part of both texts that is equal or differs. -/
structure Piece where
  isEqual : Bool
  left : Nat
  leftStop : Nat
  right : Nat
  rightStop : Nat
  deriving DecidableEq, Repr

/-- The pieces between and in blocks, from a place on. -/
def piecesFrom (left right : Nat) : List Block → List Piece
  | [] => []
  | b :: rest =>
    (if left < b.left || right < b.right then [⟨false, left, b.left, right, b.right⟩] else []) ++
    (if 0 < b.size then [⟨true, b.left, b.left + b.size, b.right, b.right + b.size⟩] else []) ++
      piecesFrom (b.left + b.size) (b.right + b.size) rest

/-- The pieces of two texts. -/
def pieces (t : Texts) : List Piece :=
  piecesFrom 0 0 (t.blocks ++ [⟨t.left.size, t.right.size, 0⟩])

/-- Lines shown around a change. -/
def context : Nat := 3

/-- The last lines of a piece. -/
def Piece.lastLines (p : Piece) : Piece :=
  { p with left := max p.left (p.leftStop - context), right := max p.right (p.rightStop - context) }

/-- The first lines of a piece. -/
def Piece.firstLines (p : Piece) : Piece :=
  { p with
    leftStop := min p.leftStop (p.left + context)
    rightStop := min p.rightStop (p.right + context) }

/-- The pieces without equal lines far from the first change. -/
def trimFront : List Piece → List Piece
  | [] => []
  | p :: rest => if p.isEqual then p.lastLines :: rest else p :: rest

/-- The pieces without equal lines far from the last change. -/
def trimBack : List Piece → List Piece
  | [] => []
  | [p] => if p.isEqual then [p.firstLines] else [p]
  | p :: rest => p :: trimBack rest

/-- Splits pieces into hunks at long equal pieces; the pieces of the open hunk are given. -/
def hunksFrom (hunk : List Piece) : List Piece → List (List Piece)
  | [] => if hunk.any (!·.isEqual) then [hunk] else []
  | p :: rest =>
    if p.isEqual && 2 * context < p.leftStop - p.left then
      (hunk ++ [p.firstLines]) :: hunksFrom [p.lastLines] rest
    else hunksFrom (hunk ++ [p]) rest

/-- The hunks of two texts. -/
def hunks (t : Texts) : List (List Piece) := hunksFrom [] (trimBack (trimFront (pieces t)))

/-- A range of lines: the first one and how many there are. -/
def rangeText (start stop : Nat) : String :=
  let n := stop - start
  if n = 1 then toString (start + 1)
  else toString (if n = 0 then start else start + 1) ++ "," ++ toString n

/-- Lines of a text with a sign in front. -/
def signed (sign : String) (lines : Array String) (start stop : Nat) : List String :=
  ((lines.toList.take stop).drop start).map (sign ++ ·)

/-- The lines of a piece. -/
def pieceLines (t : Texts) (p : Piece) : List String :=
  if p.isEqual then signed " " t.left p.left p.leftStop
  else signed "-" t.left p.left p.leftStop ++ signed "+" t.right p.right p.rightStop

/-- The lines of a hunk. -/
def hunkLines (t : Texts) (hunk : List Piece) : List String :=
  match hunk.head?, hunk.getLast? with
  | some first, some last =>
    ("@@ -" ++ rangeText first.left last.leftStop ++ " +" ++
      rangeText first.right last.rightStop ++ " @@\n") :: hunk.flatMap (pieceLines t)
  | _, _ => []

/-- The differences between two lists of lines, which hold their line ends, under a name. -/
def unified (name : String) (left right : List String) : String :=
  let t := Texts.ofLines left right
  match hunks t with
  | [] => ""
  | found => "--- " ++ name ++ "\n+++ " ++ name ++ "\n" ++
      String.join (found.flatMap (hunkLines t))

end StableProps.Diff

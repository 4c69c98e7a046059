/-!
# Common blocks of two texts

Two lists of lines are compared by their longest common run, the first of equals, and then by what
lies before and behind it. In long texts, lines that occur very often start no run of their own.
-/

namespace StableProps.Diff

/-- A run of equal lines: where it starts in each text and how long it is. -/
structure Block where
  left : Nat
  right : Nat
  size : Nat
  deriving DecidableEq, Repr

/-- A part of each text. -/
structure Window where
  left : Nat
  leftStop : Nat
  right : Nat
  rightStop : Nat
  deriving Repr

/-- Two texts that are compared. -/
structure Texts where
  left : Array String
  right : Array String
  /-- Lines of the second text that occur too often to start a run. -/
  popular : List String

namespace Texts

/-- Lines that occur very often in a text of at least two hundred lines. -/
def popularLines (lines : List String) : List String :=
  if lines.length < 200 then []
  else lines.eraseDups.filter fun l => lines.length / 100 + 1 < lines.count l

/-- Makes two texts ready for comparison. -/
def ofLines (left right : List String) : Texts :=
  ⟨left.toArray, right.toArray, popularLines right⟩

/-- Whether a line of the first text equals one of the second. -/
def same (t : Texts) (i j : Nat) : Bool :=
  match t.left[i]?, t.right[j]? with
  | some a, some b => a == b
  | _, _ => false

/-- Positions in the second text that continue or start a run at a line of the first. -/
def partners (t : Texts) (w : Window) (i : Nat) : List Nat :=
  match t.left[i]? with
  | none => []
  | some line =>
    if t.popular.contains line then []
    else (List.range' w.right (w.rightStop - w.right)).filter fun j => t.right[j]? == some line

/-- The lengths of the runs that end at a line of the first text, by where they end in the second,
given those that end one line before. -/
def runsAt (t : Texts) (w : Window) (i : Nat) (previous : List (Nat × Nat)) : List (Nat × Nat) :=
  (t.partners w i).map fun j =>
    (j, (if j = 0 then 0 else (previous.lookup (j - 1)).getD 0) + 1)

/-- The longer of a block and the runs that end at a line. -/
def longer (i : Nat) (best : Block) (runs : List (Nat × Nat)) : Block :=
  runs.foldl (fun best (j, n) =>
    if best.size < n then ⟨i + 1 - n, j + 1 - n, n⟩ else best) best

/-- The longest run in a window, before it is extended by lines that occur often. -/
def longestRun (t : Texts) (w : Window) : Block :=
  ((List.range' w.left (w.leftStop - w.left)).foldl (fun (best, previous) i =>
    let runs := t.runsAt w i previous
    (longer i best runs, runs)) ((⟨w.left, w.right, 0⟩ : Block), [])).1

/-- Extends a block to the front. -/
def extendFront (t : Texts) (w : Window) : Nat → Block → Block
  | 0, b => b
  | fuel + 1, b =>
    if w.left < b.left && w.right < b.right && t.same (b.left - 1) (b.right - 1) then
      extendFront t w fuel ⟨b.left - 1, b.right - 1, b.size + 1⟩
    else b

/-- Extends a block to the back. -/
def extendBack (t : Texts) (w : Window) : Nat → Block → Block
  | 0, b => b
  | fuel + 1, b =>
    if b.left + b.size < w.leftStop && b.right + b.size < w.rightStop &&
        t.same (b.left + b.size) (b.right + b.size) then
      extendBack t w fuel { b with size := b.size + 1 }
    else b

/-- The longest block in a window. -/
def longest (t : Texts) (w : Window) : Block :=
  let run := t.longestRun w
  t.extendBack w t.left.size (t.extendFront w t.left.size run)

/-- All blocks in a window, in order. -/
def blocksIn (t : Texts) : Nat → Window → List Block
  | 0, _ => []
  | fuel + 1, w =>
    let b := t.longest w
    if b.size = 0 then []
    else
      blocksIn t fuel { w with leftStop := b.left, rightStop := b.right } ++ [b] ++
        blocksIn t fuel { w with left := b.left + b.size, right := b.right + b.size }

/-- Joins a block with the one behind it if nothing lies between them. -/
def joinBlock (b : Block) : List Block → List Block
  | [] => [b]
  | c :: rest =>
    if b.left + b.size = c.left ∧ b.right + b.size = c.right then
      { b with size := b.size + c.size } :: rest
    else b :: c :: rest

/-- All blocks of two texts, in order. -/
def blocks (t : Texts) : List Block :=
  (t.blocksIn (t.left.size + 1) ⟨0, t.left.size, 0, t.right.size⟩).foldr joinBlock []

end Texts

end StableProps.Diff

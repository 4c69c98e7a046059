import StableProps.Syntax.Node
import StableProps.Text.Bytes

/-!
# Moving an expression to another indentation

The lines of an expression keep their indentation relative to each other. The first line and the
lines that start inside a template text are left as they are.
-/

namespace StableProps

/-- Lines between line feeds. -/
def Bytes.split : Bytes → List Bytes
  | [] => [[]]
  | b :: rest =>
    if b == newline then [] :: split rest
    else match split rest with
      | [] => [[b]]
      | l :: ls => (b :: l) :: ls

/-- A line and whether its indentation may change. -/
structure Line where
  bytes : Bytes
  movable : Bool

namespace Line

/-- Whether a line holds only white space. -/
def isBlank (l : Line) : Bool := l.bytes.all Bytes.isBlank

/-- How many bytes the indentation takes. -/
def width (l : Line) : Nat := (l.bytes.takeWhile Bytes.isIndent).length

/-- The line with the first `common` bytes replaced by an indentation, if it may change. -/
def moved (common : Nat) (indent : Bytes) (l : Line) : Bytes :=
  if !l.movable then l.bytes
  else if l.isBlank then []
  else indent ++ l.bytes.drop common

/-- Marks lines by the ranges in which a line must not start; the first line starts at an offset. -/
def mark (ranges : List (Nat × Nat)) (first : Bool) (offset : Nat) : List Bytes → List Line
  | [] => []
  | l :: ls =>
    ⟨l, !first && !ranges.any fun r => r.1 < offset && offset < r.2⟩ ::
      mark ranges false (offset + l.length + 1) ls

end Line

/-- Lines with line feeds between them. -/
def Bytes.joinLines : List Bytes → Bytes
  | [] => []
  | [l] => l
  | l :: ls => l ++ Bytes.newline :: joinLines ls

/-- The bytes of an expression with its lines moved under an indentation. -/
def Node.reindentedBytes (n : Node) (bs : Bytes) (indent : String) : Bytes :=
  let templates := (n.walk.filter (·.is .templateString)).map fun t => (t.start, t.stop)
  let lines := Line.mark templates true n.start (bs.slice n.start n.stop).split
  match ((lines.filter fun l => l.movable && !l.isBlank).map Line.width).min? with
  | none => Bytes.joinLines (lines.map Line.bytes)
  | some common => Bytes.joinLines (lines.map (Line.moved common (Bytes.ofText indent)))

/-- The text of an expression with its lines moved under an indentation. -/
def Node.reindented (n : Node) (bs : Bytes) (indent : String) : String :=
  (n.reindentedBytes bs indent).text

end StableProps

import StableProps.Syntax.Focus
import StableProps.Text.Bytes

/-!
# The shape of syntax trees

What all stages behind the parser rely on. Children lie inside the range of their parent, one
behind the other, and none of them is empty. Numbers tell the nodes of a tree apart. Braces in
markup open before what they hold. Nodes cut no character of the source, and template texts start
with their mark. A tree of another shape is no reading of a source.
-/

namespace StableProps.Node

mutual

/-- Whether all ranges below a node nest. -/
def nests (n : Node) : Bool :=
  match n with
  | ⟨_, _, _, start, stop, _, children⟩ => nestsBetween start stop children

/-- Whether neighbours stand one behind the other between two offsets, and nest themselves. -/
def nestsBetween (start stop : Nat) : List Node → Bool
  | [] => start ≤ stop
  | c :: cs => start ≤ c.start && c.start < c.stop && c.nests && nestsBetween c.stop stop cs

end

/-- Whether braces start with their opening mark, if the node is a pair of them. -/
def opensBraces (n : Node) : Bool := !n.is .jsxExpression || n.children.head?.all (!·.isNamed)

/-- Whether a tree can stand for a source, its numbers apart. -/
def isReading (root : Node) : Bool :=
  root.is .program && root.nests && root.walk.all opensBraces

/-- Whether no function stands for the parameters of a node, or for the block of a clause that
catches. -/
def partsFit (n : Node) : Bool :=
  n.children.all fun c => !(c.isFunction && (c.field == some .parameter ||
    c.field == some .parameters || n.is .catchClause && c.field == some .body))

/-- The byte that template texts start with. -/
def templateMark : UInt8 := 96

/-- Whether a node starts and ends between characters of a source, with its mark if it is a template
text. -/
def fitsText (bs : Bytes) (n : Node) : Bool :=
  bs.isBoundary n.start && bs.isBoundary n.stop &&
    (!n.is .templateString || bs[n.start]? == some templateMark)

/-- The shape of a whole syntax tree. -/
structure WellFormed (root : Node) : Prop where
  /-- The tree is that of a program. -/
  program : root.is .program = true
  /-- No number is given twice. -/
  numbered : (root.walk.map id).Nodup
  /-- Ranges nest. -/
  nested : root.nests = true
  /-- Braces open before what they hold. -/
  braced : ∀ n ∈ root.walk, n.opensBraces = true

/-- The tree of a source in which nothing can be read. -/
def emptyProgram (size : Nat) : Node := ⟨0, .rule .program, none, 0, size, "", []⟩

/-- A reading with distinct numbers has the shape of a syntax tree. -/
theorem WellFormed.of_isReading {root : Node} (h : root.isReading = true)
    (hn : (root.walk.map id).Nodup) : root.WellFormed := by
  simp only [isReading, Bool.and_eq_true, List.all_eq_true] at h
  exact ⟨h.1.1, hn, h.1.2, h.2⟩

/-- The parts of an empty program fit. -/
theorem partsFit_emptyProgram (size : Nat) : ∀ n ∈ (emptyProgram size).walk, n.partsFit = true := by
  simp [emptyProgram, walk, walkAll, partsFit]

theorem fitsText_emptyProgram (bs : Bytes) :
    ∀ n ∈ (emptyProgram bs.length).walk, n.fitsText bs = true := by
  simp [emptyProgram, walk, walkAll, fitsText, Bytes.isBoundary, is]

/-- The empty program has the shape of a syntax tree. -/
theorem wellFormed_emptyProgram (size : Nat) : (emptyProgram size).WellFormed := by
  refine .of_isReading ?_ ?_ <;>
    simp [emptyProgram, isReading, is, nests, nestsBetween, walk, walkAll, opensBraces]

end StableProps.Node

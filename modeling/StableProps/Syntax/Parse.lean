import StableProps.Syntax.Reader.Statements
import StableProps.Syntax.Reader.Finish
import StableProps.Syntax.Shape

/-!
# From text to tree

The parts of the grammar are tied together level by level: a reader of one level only calls
readers of the level below, so reading ends. As each level is entered for a construct nested in
another one at the same or a later position, a few levels for each character are always enough.
-/

namespace StableProps.Reader

/-- The grammar that can nest `n` constructs. -/
def Grammar.level : Nat → Grammar
  | 0 => Grammar.none
  | n + 1 =>
    { expression := fun i => Reader.expression (Grammar.level n) false i
      consequence := fun i => Reader.expression (Grammar.level n) true i
      operand := fun i => Reader.operand (Grammar.level n) i
      type := fun i => Reader.type (Grammar.level n) i
      unionType := fun i => Reader.unionType (Grammar.level n) i
      arrayType := fun i => Reader.arrayType (Grammar.level n) i
      statement := fun i => Reader.statement (Grammar.level n) i
      classBody := fun i => Reader.classRest (Grammar.level n) i
      element := fun i => Reader.element (Grammar.level n) i
      binding := fun i => Reader.binding (Grammar.level n) i
      target := fun i => Reader.target (Grammar.level n) i }

/-- The line that names an interpreter at the very start. -/
def hashBangLine : Reader Node := whenInput (·.startsWith "#!") do
  let line ← runLeaf (.rule .hashBangLine) (· != '\n')
  settle
  return line

/-- All statements of a source. -/
def statements (levels : Nat) : Reader (List Node) := do
  let first ← atMostOne hashBangLine
  settle
  let rest ← many ((fun n => [n]) <$> (Grammar.level levels).statement)
  return first ++ rest

end StableProps.Reader

namespace StableProps

open Reader in
/-- Reads a source with the grammar of a language. -/
def readTree (language : Language) (source : String) : Node :=
  let size := source.utf8ByteSize
  let start : Input :=
    { language, rest := source.toList, offset := 0, size, tail := 0, newline := false,
      comments := [] }
  let levels := 8 * size + 64
  let (children, comments) := match statements levels start with
    | some (children, stop) => (children, stop.comments.reverse)
    | none => ([], [])
  let root : Node := ⟨0, .rule .program, none, 0, size, "", children⟩
  (number source (attach root comments) 0).1

/-- Reads a source. What cannot be read as a statement ends the tree, and only a tree of the right
shape is taken. -/
def parse (language : Language) (source : String) : Node :=
  let tree := readTree language source
  if tree.isReading && tree.walk.all Node.partsFit &&
      tree.walk.all (Node.fitsText (Bytes.ofText source)) then tree
  else .emptyProgram source.utf8ByteSize

/-- What is read is a tree of the right shape, or nothing. -/
theorem parse_cases (language : Language) (source : String) :
    (parse language source = readTree language source ∧
      (readTree language source).isReading = true ∧
      (∀ n ∈ (readTree language source).walk, n.partsFit = true) ∧
      ∀ n ∈ (readTree language source).walk, n.fitsText (Bytes.ofText source) = true) ∨
    parse language source = .emptyProgram source.utf8ByteSize := by
  simp only [parse]
  split
  next h =>
    simp only [Bool.and_eq_true, List.all_eq_true] at h
    exact .inl ⟨rfl, h.1.1, h.1.2, h.2⟩
  next => exact .inr rfl

/-- Every tree that is read has the shape of a syntax tree. -/
theorem wellFormed_parse (language : Language) (source : String) :
    (parse language source).WellFormed := by
  rcases parse_cases language source with ⟨htree, hreading, -⟩ | hempty
  · rw [htree]
    exact .of_isReading hreading (Reader.nodup_number _ _ _)
  · rw [hempty]
    exact Node.wellFormed_emptyProgram _

/-- In every tree that is read functions stand where they can. -/
theorem partsFit_parse (language : Language) (source : String) :
    ∀ n ∈ (parse language source).walk, n.partsFit = true := by
  rcases parse_cases language source with ⟨htree, -, hparts, -⟩ | hempty
  · rw [htree]
    exact hparts
  · rw [hempty]
    exact Node.partsFit_emptyProgram _

/-- Every tree that is read cuts no character of its source, and has its marks. -/
theorem fitsText_parse (language : Language) (source : String) :
    ∀ n ∈ (parse language source).walk, n.fitsText (Bytes.ofText source) = true := by
  rcases parse_cases language source with ⟨htree, -, -, htext⟩ | hempty
  · rw [htree]
    exact htext
  · rw [hempty]
    exact Node.fitsText_emptyProgram (Bytes.ofText source)

/-- The tree of a text ends where the text does. -/
theorem stop_parse (language : Language) (source : String) :
    (parse language source).stop = source.utf8ByteSize := by
  simp only [parse]
  split
  · rw [readTree, Reader.stop_number, Reader.stop_attach]
  · rfl

end StableProps

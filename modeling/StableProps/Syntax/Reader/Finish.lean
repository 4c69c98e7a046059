import StableProps.Syntax.Reader.Input

/-!
# Finishing a tree

A tree leaves the grammar without comments, numbers and texts. Comments go to the innermost node
whose range holds them, between the children they stand between; then the nodes are numbered in
pre-order and take their texts from the source.
-/

namespace StableProps.Reader

/-- The node of a comment. -/
def Comment.node (c : Comment) : Node := leaf (.rule .comment) c.start c.stop

mutual

/-- Puts comments that lie in the range of a node below it. -/
def attach (n : Node) (comments : List Comment) : Node :=
  match n with
  | ⟨id, label, field, start, stop, text, children⟩ =>
    ⟨id, label, field, start, stop, text, attachAll children comments⟩

/-- Puts comments into and between neighbours, both in source order. -/
def attachAll : List Node → List Comment → List Node
  | [], comments => comments.map Comment.node
  | c :: rest, comments =>
    let before := comments.takeWhile (·.start < c.start)
    let others := comments.dropWhile (·.start < c.start)
    let inside := others.takeWhile (·.stop ≤ c.stop)
    let behind := others.dropWhile (·.stop ≤ c.stop)
    before.map Comment.node ++ attach c inside :: attachAll rest behind

end

theorem stop_attach (n : Node) (comments : List Comment) : (attach n comments).stop = n.stop := by
  cases n with
  | mk id label field start stop text children => rw [attach]

/-- The text between two byte offsets. -/
def slice (source : String) (start stop : Nat) : String :=
  String.Pos.Raw.extract source ⟨start⟩ ⟨stop⟩

mutual

/-- Numbers a tree from `next` on and cuts its texts; the result comes with the next free number. -/
def number (source : String) (n : Node) (next : Nat) : Node × Nat :=
  match n with
  | ⟨_, label, field, start, stop, _, children⟩ =>
    let (children, after) := numberAll source children (next + 1)
    (⟨next, label, field, start, stop, slice source start stop, children⟩, after)

/-- Numbers neighbours one after the other. -/
def numberAll (source : String) (ns : List Node) (next : Nat) : List Node × Nat :=
  match ns with
  | [] => ([], next)
  | n :: rest =>
    let (n, next) := number source n next
    let (rest, next) := numberAll source rest next
    (n :: rest, next)

end

theorem stop_number (source : String) (n : Node) (next : Nat) :
    (number source n next).1.stop = n.stop := by
  cases n with
  | mk id label field start stop text children => rw [number]

mutual

/-- A numbered tree has the numbers from the first one given up to the next free one, in
pre-order. -/
theorem ids_number (source : String) (n : Node) (next : Nat) :
    next ≤ (number source n next).2 ∧
      (number source n next).1.walk.map Node.id =
        List.range' next ((number source n next).2 - next) := by
  obtain ⟨id, label, field, start, stop, text, children⟩ := n
  obtain ⟨hle, hids⟩ := ids_numberAll source children (next + 1)
  rw [number]
  simp only [Node.walk, List.map_cons, hids]
  refine ⟨by omega, ?_⟩
  have hcount : (numberAll source children (next + 1)).2 - next =
      (numberAll source children (next + 1)).2 - (next + 1) + 1 := by omega
  rw [hcount, List.range'_succ]

/-- Numbered neighbours have consecutive numbers as well. -/
theorem ids_numberAll (source : String) (ns : List Node) (next : Nat) :
    next ≤ (numberAll source ns next).2 ∧
      (Node.walkAll (numberAll source ns next).1).map Node.id =
        List.range' next ((numberAll source ns next).2 - next) := by
  match ns with
  | [] => simp [numberAll, Node.walkAll]
  | n :: rest =>
    obtain ⟨hle, hids⟩ := ids_number source n next
    obtain ⟨hle', hids'⟩ := ids_numberAll source rest (number source n next).2
    rw [numberAll]
    simp only [Node.walkAll, List.map_append, hids, hids']
    refine ⟨by omega, ?_⟩
    have hcount : (numberAll source rest (number source n next).2).2 - next =
        ((number source n next).2 - next) +
          ((numberAll source rest (number source n next).2).2 - (number source n next).2) := by
      omega
    rw [hcount, ← List.range'_append_1]
    congr 2
    omega

end

/-- No number is given twice. -/
theorem nodup_number (source : String) (n : Node) (next : Nat) :
    ((number source n next).1.walk.map Node.id).Nodup := by
  rw [(ids_number source n next).2]
  exact List.nodup_range'

end StableProps.Reader

import StableProps.Proofs.Syntax.Place

/-!
# Ranges of places

In a well-formed tree ranges follow the tree. A place covers what lies inside it, and two places of
which neither lies in the other one share no byte.
-/

namespace StableProps

namespace Node

/-- A node nests if its children are one behind the other within it. -/
theorem nests_iff (n : Node) : n.nests = nestsBetween n.start n.stop n.children := by
  cases n with
  | mk id label field start stop text children => rw [nests]

/-- Neighbours between two offsets keep to them, hold at least a byte each, and nest. -/
theorem bounds_of_nestsBetween {cs : List Node} {start stop : Nat}
    (h : nestsBetween start stop cs = true) :
    start ≤ stop ∧ ∀ c ∈ cs, start ≤ c.start ∧ c.start < c.stop ∧ c.stop ≤ stop ∧
      c.nests = true := by
  induction cs generalizing start with
  | nil => simpa [nestsBetween] using h
  | cons c cs ih =>
    simp only [nestsBetween, Bool.and_eq_true, decide_eq_true_eq] at h
    obtain ⟨⟨⟨hstart, hsize⟩, hnests⟩, hrest⟩ := h
    obtain ⟨hstop, hmem⟩ := ih hrest
    refine ⟨by omega, ?_⟩
    intro d hd
    rcases List.mem_cons.1 hd with rfl | hd
    · exact ⟨hstart, hsize, hstop, hnests⟩
    · obtain ⟨h₁, h₂, h₃, h₄⟩ := hmem d hd
      exact ⟨by omega, h₂, h₃, h₄⟩

/-- Of two neighbours one ends before the other starts. -/
theorem apart_of_nestsBetween {cs : List Node} {start stop : Nat}
    (h : nestsBetween start stop cs = true) {c d : Node} (hc : c ∈ cs) (hd : d ∈ cs) :
    c = d ∨ c.stop ≤ d.start ∨ d.stop ≤ c.start := by
  induction cs generalizing start with
  | nil => simp at hc
  | cons e cs ih =>
    simp only [nestsBetween, Bool.and_eq_true] at h
    have hbounds := (bounds_of_nestsBetween h.2).2
    rcases List.mem_cons.1 hc with rfl | hc'
    · rcases List.mem_cons.1 hd with rfl | hd'
      · exact .inl rfl
      · exact .inr (.inl (hbounds d hd').1)
    · rcases List.mem_cons.1 hd with rfl | hd'
      · exact .inr (.inr (hbounds c hc').1)
      · exact ih h.2 hc' hd'

end Node

namespace Focus

/-- The range of one place holds that of another one. -/
def Covers (outer inner : Focus) : Prop :=
  outer.node.start ≤ inner.node.start ∧ inner.node.stop ≤ outer.node.stop

/-- The ranges of two places have no byte in common, and one ends before the other starts. -/
def Apart (f g : Focus) : Prop := f.node.stop ≤ g.node.start ∨ g.node.stop ≤ f.node.start

/-- What covers something covers what that covers. -/
theorem Covers.trans {f g h : Focus} (hfg : f.Covers g) (hgh : g.Covers h) : f.Covers h :=
  ⟨Nat.le_trans hfg.1 hgh.1, Nat.le_trans hgh.2 hfg.2⟩

theorem Apart.symm {f g : Focus} (h : f.Apart g) : g.Apart f := Or.symm h

/-- What lies apart from a range lies apart from all parts of it. -/
theorem Apart.of_covers {f g h : Focus} (hfg : f.Apart g) (hgh : g.Covers h) : f.Apart h := by
  obtain ⟨h₁, h₂⟩ := hgh
  rcases hfg with hlt | hlt
  · exact .inl (Nat.le_trans hlt h₁)
  · exact .inr (Nat.le_trans h₂ hlt)

namespace IsIn

variable {root : Node} {f g : Focus}

/-- All nodes of a well-formed tree nest. -/
theorem nests (hroot : root.WellFormed) (h : f.IsIn root) : f.node.nests = true := by
  induction h with
  | root => exact hroot.nested
  | down _ hc ih =>
    rw [Node.nests_iff] at ih
    exact ((Node.bounds_of_nestsBetween ih).2 _ hc).2.2.2

/-- A child keeps to the range of its parent and is not empty. -/
theorem child_bounds (hroot : root.WellFormed) (h : f.IsIn root) {c : Node}
    (hc : c ∈ f.node.children) :
    f.node.start ≤ c.start ∧ c.start < c.stop ∧ c.stop ≤ f.node.stop := by
  have hnests := h.nests hroot
  rw [Node.nests_iff] at hnests
  obtain ⟨h₁, h₂, h₃, -⟩ := (Node.bounds_of_nestsBetween hnests).2 c hc
  exact ⟨h₁, h₂, h₃⟩

/-- Two children of a node are one or apart. -/
theorem children_apart (hroot : root.WellFormed) (h : f.IsIn root) {c d : Node}
    (hc : c ∈ f.node.children) (hd : d ∈ f.node.children) :
    c = d ∨ (f.down c).Apart (f.down d) := by
  have hnests := h.nests hroot
  rw [Node.nests_iff] at hnests
  exact Node.apart_of_nestsBetween hnests hc hd

/-- A node does not end before it starts. -/
theorem start_le_stop (hroot : root.WellFormed) (h : f.IsIn root) :
    f.node.start ≤ f.node.stop := by
  have hnests := h.nests hroot
  rw [Node.nests_iff] at hnests
  exact (Node.bounds_of_nestsBetween hnests).1

/-- Only a whole tree can be empty. -/
theorem start_lt_stop (hroot : root.WellFormed) (h : f.IsIn root) (habove : f.above ≠ []) :
    f.node.start < f.node.stop := by
  rcases h.eq_root_or_down with rfl | ⟨p, c, hp, hc, rfl⟩
  · exact absurd rfl habove
  · exact (hp.child_bounds hroot hc).2.1

/-- A place covers all that lies inside it. -/
theorem covers (hroot : root.WellFormed) (hf : f.IsIn root) (h : g ∈ f.outward) : g.Covers f := by
  induction hf with
  | root =>
    obtain rfl := List.mem_singleton.1 h
    exact ⟨Nat.le_refl _, Nat.le_refl _⟩
  | @down p c hp hc ih =>
    rcases List.mem_cons.1 h with rfl | h
    · exact ⟨Nat.le_refl _, Nat.le_refl _⟩
    · obtain ⟨h₁, -, h₃⟩ := hp.child_bounds hroot hc
      exact (ih h).trans ⟨h₁, h₃⟩

/-- Of two places one lies around the other, or they lie apart. -/
theorem nested_or_apart (hroot : root.WellFormed) (hf : f.IsIn root) (hg : g.IsIn root) :
    g ∈ f.outward ∨ f ∈ g.outward ∨ f.Apart g := by
  induction hf with
  | root => exact .inr (.inl hg.root_mem_outward)
  | @down p c hp hc ih =>
    rcases ih with h | h | h
    · exact .inl (List.mem_cons_of_mem _ h)
    · rcases hg.eq_or_child_mem_outward h with rfl | ⟨d, hd, hmem⟩
      · exact .inl (List.mem_cons_of_mem _ (mem_outward_self _))
      · rcases hp.children_apart hroot hc hd with rfl | hapart
        · exact .inr (.inl hmem)
        · exact .inr (.inr (hapart.of_covers (hg.covers hroot hmem)))
    · obtain ⟨h₁, -, h₃⟩ := hp.child_bounds hroot hc
      exact .inr (.inr (h.symm.of_covers ⟨h₁, h₃⟩).symm)

/-- A place that covers another one lies around it, unless they have the same range. -/
theorem mem_outward_of_covers (hroot : root.WellFormed) (hf : f.IsIn root) (hg : g.IsIn root)
    (habove : f.above ≠ []) (h : g.Covers f) : g ∈ f.outward ∨ f ∈ g.outward := by
  rcases nested_or_apart hroot hf hg with hmem | hmem | hapart
  · exact .inl hmem
  · exact .inr hmem
  · have hsize := hf.start_lt_stop hroot habove
    obtain ⟨h₁, h₂⟩ := h
    rcases hapart with hlt | hlt <;> omega

/-- Two places share no byte exactly if none of them covers the other one. -/
theorem apart_iff (hroot : root.WellFormed) (hf : f.IsIn root) (hg : g.IsIn root)
    (hf' : f.above ≠ []) (hg' : g.above ≠ []) :
    f.Apart g ↔ ¬f.Covers g ∧ ¬g.Covers f := by
  have hfsize := hf.start_lt_stop hroot hf'
  have hgsize := hg.start_lt_stop hroot hg'
  constructor
  · intro hapart
    constructor
    · rintro ⟨h₁, h₂⟩
      rcases hapart with hlt | hlt <;> omega
    · rintro ⟨h₁, h₂⟩
      rcases hapart with hlt | hlt <;> omega
  · rintro ⟨hfg, hgf⟩
    rcases nested_or_apart hroot hf hg with hmem | hmem | hapart
    · exact absurd (hf.covers hroot hmem) hgf
    · exact absurd (hg.covers hroot hmem) hfg
    · exact hapart

end IsIn

end Focus

end StableProps

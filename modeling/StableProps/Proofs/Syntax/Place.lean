import Mathlib.Data.List.Nodup
import StableProps.Syntax.Focus
import StableProps.Syntax.Shape

/-!
# Places of a tree

The places of a tree are its root and all that is reached from it by going down. They are closed
under going up, a number belongs to one place only, and the ranges of two places either nest, in
the way the places do, or lie apart.
-/

namespace StableProps.Focus

/-- The places of a tree: its root, and the children of places. -/
inductive IsIn (root : Node) : Focus → Prop where
  | root : IsIn root root.focus
  | down {f : Focus} {c : Node} : IsIn root f → c ∈ f.node.children → IsIn root (f.down c)

/-! ## Going up -/

theorem mem_outward_self (f : Focus) : f ∈ f.outward := List.mem_cons_self

/-- What lies around a place that lies around another one lies around that one too. -/
theorem outward_suffix {f g : Focus} (h : g ∈ f.outward) : g.outward <:+ f.outward := by
  obtain ⟨n, above⟩ := f
  induction above generalizing n with
  | nil =>
    obtain rfl := List.mem_singleton.1 h
    exact List.suffix_refl _
  | cons p ps ih =>
    rcases List.mem_cons.1 h with rfl | h
    · exact List.suffix_refl _
    · exact (ih p h).trans (List.suffix_cons _ _)

/-- What is around something around a place is around the place. -/
theorem mem_outward_trans {f g h : Focus} (hg : g ∈ f.outward) (hh : h ∈ g.outward) :
    h ∈ f.outward :=
  (outward_suffix hg).subset hh

/-- Of two places around a third, one lies around the other. -/
theorem outward_linear {f g h : Focus} (hg : g ∈ f.outward) (hh : h ∈ f.outward) :
    h ∈ g.outward ∨ g ∈ h.outward := by
  obtain ⟨n, above⟩ := f
  induction above generalizing n with
  | nil =>
    obtain rfl := List.mem_singleton.1 hg
    exact .inl hh
  | cons p ps ih =>
    rcases List.mem_cons.1 hg with rfl | hg'
    · exact .inl hh
    · rcases List.mem_cons.1 hh with rfl | hh'
      · exact .inr hg
      · exact ih p hg' hh'

/-- Around a place are the place itself and what is above it. -/
theorem mem_outward_iff {f g : Focus} : g ∈ f.outward ↔ g = f ∨ g ∈ ofAbove f.above :=
  List.mem_cons

/-- The nodes of the places around a place are its ancestors. -/
theorem map_node_ofAbove (above : List Node) : (ofAbove above).map node = above := by
  induction above with
  | nil => rfl
  | cons p ps ih => rw [ofAbove, List.map_cons, ih]

/-- The ancestors at a place around another one are among the ancestors there. -/
theorem above_suffix {f g : Focus} (h : g ∈ f.outward) : g.above <:+ f.above := by
  obtain ⟨l, hl⟩ := outward_suffix h
  have hmap := congrArg (List.map node) hl
  simp only [List.map_append, outward, List.map_cons, map_node_ofAbove] at hmap
  have hsuffix : g.node :: g.above <:+ f.node :: f.above := ⟨_, hmap⟩
  rcases List.suffix_cons_iff.1 hsuffix with heq | hs
  · exact (List.cons.inj heq).2 ▸ List.suffix_refl _
  · exact (List.suffix_cons _ _).trans hs

/-- What lies strictly around a place has fewer ancestors. -/
theorem length_above_lt {f g : Focus} (h : g ∈ ofAbove f.above) :
    g.above.length < f.above.length := by
  obtain ⟨n, above⟩ := f
  induction above generalizing n with
  | nil => simp [ofAbove] at h
  | cons p ps ih =>
    rcases List.mem_cons.1 h with rfl | h
    · exact Nat.lt_succ_self _
    · exact Nat.lt_succ_of_lt (ih p h)

/-- Around a place there is one place at each depth. -/
theorem eq_of_mem_outward {f g : Focus} (h : g ∈ f.outward)
    (hlength : f.above.length ≤ g.above.length) : g = f := by
  rcases mem_outward_iff.1 h with heq | h
  · exact heq
  · have hlt := length_above_lt h
    omega

/-- Two places around each other are one. -/
theorem mem_outward_antisymm {f g : Focus} (hg : g ∈ f.outward) (hf : f ∈ g.outward) : g = f :=
  eq_of_mem_outward hg (above_suffix hf).length_le

/-- Two children of a place that lie around another one are the same. -/
theorem child_eq_of_mem_outward {f g : Focus} {c d : Node} (hc : g.down c ∈ f.outward)
    (hd : g.down d ∈ f.outward) : c = d := by
  rcases outward_linear hc hd with h | h
  · exact (congrArg node (eq_of_mem_outward h (Nat.le_refl _))).symm
  · exact congrArg node (eq_of_mem_outward h (Nat.le_refl _))

private theorem mem_ofAbove_of_mem_above {f : Focus} {n : Node} (h : n ∈ f.above) :
    ∃ g ∈ ofAbove f.above, g.node = n := by
  rw [← map_node_ofAbove f.above] at h
  exact List.mem_map.1 h

private theorem node_mem_above {f g : Focus} (h : g ∈ ofAbove f.above) : g.node ∈ f.above := by
  rw [← map_node_ofAbove f.above]
  exact List.mem_map_of_mem h

namespace IsIn

variable {root : Node} {f g : Focus}

/-- The tree of a place is the outermost of the places around it. -/
theorem root_mem_outward (h : f.IsIn root) : root.focus ∈ f.outward := by
  induction h with
  | root => exact mem_outward_self _
  | down _ _ ih => exact List.mem_cons_of_mem _ ih

/-- Going up stays in the tree. -/
theorem of_mem_outward (h : f.IsIn root) (hg : g ∈ f.outward) : g.IsIn root := by
  induction h with
  | root =>
    obtain rfl := List.mem_singleton.1 hg
    exact .root
  | down hf hc ih =>
    rcases List.mem_cons.1 hg with rfl | hg
    · exact .down hf hc
    · exact ih hg

private theorem of_mem_ofAbove (h : f.IsIn root) (hg : g ∈ ofAbove f.above) : g.IsIn root :=
  h.of_mem_outward (List.mem_cons_of_mem _ hg)

/-- Below the root each place is a child of the next place outward. -/
theorem eq_root_or_down (h : f.IsIn root) :
    f = root.focus ∨
      ∃ (p : Focus) (c : Node), p.IsIn root ∧ c ∈ p.node.children ∧ f = p.down c := by
  cases h with
  | root => exact .inl rfl
  | down hf hc => exact .inr ⟨_, _, hf, hc, rfl⟩

/-- A place inside another one lies within one of its children. -/
theorem eq_or_child_mem_outward (hg : g.IsIn root) (h : f ∈ g.outward) :
    g = f ∨ ∃ d ∈ f.node.children, f.down d ∈ g.outward := by
  induction hg with
  | root => exact .inl (List.mem_singleton.1 h).symm
  | @down q e _ he ih =>
    rcases List.mem_cons.1 h with rfl | h
    · exact .inl rfl
    · rcases ih h with rfl | ⟨d, hd, hmem⟩
      · exact .inr ⟨e, he, mem_outward_self _⟩
      · exact .inr ⟨d, hd, List.mem_cons_of_mem _ hmem⟩

/-- The child of a field stands in the tree. -/
theorem child {c : Focus} {part : Field} (h : f.IsIn root) (hc : f.child? part = some c) :
    c.IsIn root := by
  obtain ⟨n, hn, rfl⟩ := Option.map_eq_some_iff.1 hc
  exact h.down (Node.mem_of_child? hn)

/-- The first named child stands in the tree. -/
theorem firstNamed {c : Focus} (h : f.IsIn root) (hc : f.firstNamed? = some c) : c.IsIn root := by
  obtain ⟨n, hn, rfl⟩ := Option.map_eq_some_iff.1 hc
  exact h.down (Node.mem_of_firstNamed? hn)

/-- A named child stands in the tree. -/
theorem of_mem_namedChildren {c : Focus} (h : f.IsIn root) (hc : c ∈ f.namedChildren) :
    c.IsIn root := by
  obtain ⟨n, hn, rfl⟩ := List.mem_map.1 hc
  exact h.down (Node.mem_of_mem_namedChildren hn)

end IsIn

/-! ## Walks -/

/-- A walk starts at its place and goes on below it. -/
theorem walkFrom_eq (above : List Node) (n : Node) :
    walkFrom above n = ⟨n, above⟩ :: walkAll (n :: above) n.children := by
  cases n with
  | mk id label field start stop text children => rw [walkFrom]

/-- A walk through several nodes goes through each of them. -/
theorem mem_walkAll {above : List Node} {cs : List Node} {f : Focus} :
    f ∈ walkAll above cs ↔ ∃ c ∈ cs, f ∈ walkFrom above c := by
  induction cs with
  | nil => simp [walkAll]
  | cons c cs ih => simp [walkAll, ih]

mutual

/-- A walk meets the children of all places it meets. -/
theorem down_mem_walkFrom (above : List Node) (n : Node) {f : Focus} {c : Node}
    (h : f ∈ walkFrom above n) (hc : c ∈ f.node.children) : f.down c ∈ walkFrom above n := by
  match n with
  | ⟨id, label, field, start, stop, text, children⟩ =>
    rw [walkFrom] at h ⊢
    rcases List.mem_cons.1 h with rfl | h
    · refine List.mem_cons_of_mem _ (mem_walkAll.2 ⟨c, hc, ?_⟩)
      rw [walkFrom_eq]
      exact List.mem_cons_self
    · exact List.mem_cons_of_mem _ (down_mem_walkAll _ children h hc)

/-- A walk over neighbours meets the children of all places it meets. -/
theorem down_mem_walkAll (above : List Node) (cs : List Node) {f : Focus} {c : Node}
    (h : f ∈ walkAll above cs) (hc : c ∈ f.node.children) : f.down c ∈ walkAll above cs := by
  match cs with
  | [] => simp [walkAll] at h
  | d :: cs =>
    rw [walkAll] at h ⊢
    rcases List.mem_append.1 h with h | h
    · exact List.mem_append_left _ (down_mem_walkFrom above d h hc)
    · exact List.mem_append_right _ (down_mem_walkAll above cs h hc)

end

theorem mem_walk_self (f : Focus) : f ∈ f.walk := by
  rw [walk, walkFrom_eq]
  exact List.mem_cons_self

/-- A walk goes through the children of all that it goes through. -/
theorem down_mem_walk {f g : Focus} {c : Node} (h : g ∈ f.walk) (hc : c ∈ g.node.children) :
    g.down c ∈ f.walk :=
  down_mem_walkFrom _ _ h hc

mutual

/-- What holds where a walk starts, and of the children of all places of which it holds, holds of
all places that the walk meets. -/
theorem walkFrom_induction {P : Focus → Prop}
    (hdown : ∀ (h : Focus) (c : Node), P h → c ∈ h.node.children → P (h.down c))
    (above : List Node) (n : Node) (hn : P ⟨n, above⟩) {f : Focus} (h : f ∈ walkFrom above n) :
    P f := by
  match n with
  | ⟨id, label, field, start, stop, text, children⟩ =>
    rw [walkFrom] at h
    rcases List.mem_cons.1 h with rfl | h
    · exact hn
    · exact walkAll_induction hdown _ children (fun c hc => hdown _ c hn hc) h

/-- What holds of several places and is handed down to children holds of all places below them. -/
private theorem walkAll_induction {P : Focus → Prop}
    (hdown : ∀ (h : Focus) (c : Node), P h → c ∈ h.node.children → P (h.down c))
    (above : List Node) (cs : List Node) (hcs : ∀ c ∈ cs, P ⟨c, above⟩) {f : Focus}
    (h : f ∈ walkAll above cs) : P f := by
  match cs with
  | [] => simp [walkAll] at h
  | c :: cs =>
    rw [walkAll] at h
    rcases List.mem_append.1 h with h | h
    · exact walkFrom_induction hdown above c (hcs c List.mem_cons_self) h
    · exact walkAll_induction hdown above cs (fun d hd => hcs d (List.mem_cons_of_mem _ hd)) h

end

/-- A walk meets only the place it starts from and places inside it. -/
theorem mem_outward_of_mem_walk {f g : Focus} (h : f ∈ g.walk) : g ∈ f.outward :=
  walkFrom_induction (P := fun f => g ∈ f.outward) (fun _ _ hg _ => List.mem_cons_of_mem _ hg) _ _
    (mem_outward_self g) h

/-- What is below something below a place is below the place. -/
theorem mem_walk_trans {f g h : Focus} (hf : f ∈ g.walk) (hg : g ∈ h.walk) : f ∈ h.walk :=
  walkFrom_induction (P := fun f => f ∈ h.walk) (fun _ _ hp hc => down_mem_walk hp hc) _ _ hg hf

/-- A walk from a place of a tree stays in the tree. -/
theorem isIn_of_mem_walk {root : Node} {f g : Focus} (hg : g.IsIn root) (h : f ∈ g.walk) :
    f.IsIn root :=
  walkFrom_induction (fun _ _ hp hc => hp.down hc) _ _ hg h

/-- The walk over a tree meets exactly its places. -/
theorem mem_walk_iff {root : Node} {f : Focus} : f ∈ root.focus.walk ↔ f.IsIn root := by
  constructor
  · exact isIn_of_mem_walk .root
  · intro h
    induction h with
    | root => exact mem_walk_self _
    | down _ hc ih => exact down_mem_walk ih hc

mutual

/-- The nodes of a walk are those below its place. -/
theorem map_node_walkFrom (above : List Node) (n : Node) :
    (walkFrom above n).map node = n.walk := by
  match n with
  | ⟨id, label, field, start, stop, text, children⟩ =>
    rw [walkFrom, Node.walk, List.map_cons, map_node_walkAll]

private theorem map_node_walkAll (above : List Node) (cs : List Node) :
    (walkAll above cs).map node = Node.walkAll cs := by
  match cs with
  | [] => rfl
  | c :: cs => rw [walkAll, Node.walkAll, List.map_append, map_node_walkFrom, map_node_walkAll]

end

/-- The walk over a tree, seen without places, is the pre-order of its nodes. -/
theorem map_node_walk (root : Node) : root.focus.walk.map node = root.walk := map_node_walkFrom _ _

/-- Numbers tell the places of a tree apart. -/
theorem nodup_map_id_walk {root : Node} (hroot : root.WellFormed) :
    (root.focus.walk.map id).Nodup := by
  have hids : root.focus.walk.map id = root.walk.map Node.id := by
    rw [← map_node_walk root, List.map_map]
    rfl
  rw [hids]
  exact hroot.numbered

namespace IsIn

variable {root : Node} {f g : Focus}

/-- The node of a place in a tree is below the root. -/
theorem mem_walk (h : f.IsIn root) : f.node ∈ root.walk := by
  rw [← map_node_walk root]
  exact List.mem_map_of_mem (mem_walk_iff.2 h)

/-- A node below a place stands at a place itself. -/
theorem exists_of_mem_walk (h : f.IsIn root) {c : Node} (hc : c ∈ f.node.walk) :
    ∃ g, g.node = c ∧ Focus.IsIn root g := by
  rw [← map_node_walkFrom f.above] at hc
  obtain ⟨g, hg, rfl⟩ := List.mem_map.1 hc
  exact ⟨g, rfl, isIn_of_mem_walk h hg⟩

/-- A number belongs to one place only. -/
theorem eq_of_id_eq (hroot : root.WellFormed) (hf : f.IsIn root) (hg : g.IsIn root)
    (h : f.id = g.id) : f = g :=
  List.inj_on_of_nodup_map (nodup_map_id_walk hroot) (mem_walk_iff.2 hf) (mem_walk_iff.2 hg) h

/-- Lying within a place is told by numbers, since these are unique. -/
theorem isWithin_iff (hroot : root.WellFormed) (hf : f.IsIn root) (hg : g.IsIn root) :
    f.isWithin g = true ↔ g ∈ f.outward := by
  simp only [isWithin, isInside, Bool.or_eq_true, beq_iff_eq, List.any_eq_true]
  constructor
  · rintro (h | ⟨n, hn, h⟩)
    · exact eq_of_id_eq hroot hf hg h ▸ mem_outward_self f
    · obtain ⟨p, hp, rfl⟩ := mem_ofAbove_of_mem_above hn
      rw [← eq_of_id_eq hroot (hf.of_mem_ofAbove hp) hg h]
      exact List.mem_cons_of_mem _ hp
  · intro h
    rcases mem_outward_iff.1 h with rfl | h
    · exact .inl rfl
    · exact .inr ⟨g.node, node_mem_above h, rfl⟩

end IsIn

end StableProps.Focus

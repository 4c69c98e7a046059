import StableProps.Proofs.Syntax.Range
import StableProps.Site.Basic

/-!
# Where sites stand

The value of a site is the first thing named inside braces of markup, and its component is a
function around it that is not inside any braces. Hence no component lies inside the value of a
site, whichever site it belongs to, and the ends of a component's body or of a statement in it never
fall strictly inside such a value.
-/

namespace StableProps

namespace Site

variable {root : Node}

/-- What the parts of a site have to do with each other in a tree. -/
structure StandsIn (s : Site) (root : Node) : Prop where
  place_isIn : s.place.IsIn root
  /-- The value is the first thing named inside braces at the place. -/
  braced : ∃ b ∈ s.place.node.children, b.is .jsxExpression = true ∧
    (s.place.down b).firstNamed? = some s.expression
  /-- The component lies around the value. -/
  component_around : s.component ∈ Focus.ofAbove s.expression.above
  component_isFunction : s.component.node.isFunction = true
  component_free : s.component.isInsideBraces = false

/-- What a site at a place is made of. -/
theorem of_at? {o : Options} {ignored : IgnoreList} {f : Focus} {s : Site}
    (h : at? o ignored f = some s) :
    s.place = f ∧
      (∃ braces, bracedValue? f = some braces ∧ braces.firstNamed? = some s.expression) ∧
      s.expression.component? = some s.component ∧
      s.host = s.element.node.hostName s.tag.node o.shortNameThreshold := by
  simp only [at?, bind, Option.bind_eq_some_iff] at h
  obtain ⟨braces, hbraces, expression, hexpression, h⟩ := h
  split at h
  · simp at h
  · obtain ⟨classification, -, element, -, tag, -, h⟩ := by
      simpa only [Option.bind_some, Option.bind_eq_some_iff] using h
    split at h
    · simp at h
    · obtain ⟨component, hcomponent, h⟩ := by
        simpa only [Option.bind_some, Option.bind_eq_some_iff] using h
      obtain rfl := Option.some.inj h
      exact ⟨rfl, ⟨braces, hbraces, hexpression⟩, hcomponent, rfl⟩

private theorem standsIn_of_at? {o : Options} {ignored : IgnoreList} {f : Focus} {s : Site}
    (hf : f.IsIn root) (h : at? o ignored f = some s) : s.place = f ∧ s.StandsIn root := by
  obtain ⟨rfl, ⟨braces, hbraces, hexpression⟩, hcomponent, -⟩ := of_at? h
  rw [bracedValue?] at hbraces
  split at hbraces
  · obtain ⟨b, hb, rfl⟩ := Option.map_eq_some_iff.1 hbraces
    have hfunction := List.find?_some hcomponent
    simp only [Bool.and_eq_true, Bool.not_eq_true'] at hfunction
    exact ⟨rfl, hf, ⟨b, Node.mem_of_childOf? hb, Node.is_of_childOf? hb, hexpression⟩,
      List.mem_of_find?_eq_some hcomponent, hfunction.1.1, hfunction.1.2⟩
  · simp at hbraces

theorem standsIn_of_mem_all {source : Source} {o : Options} {ignored : IgnoreList} {s : Site}
    (h : s ∈ all source o ignored) : s.StandsIn source.root := by
  obtain ⟨f, hf, hs⟩ := List.mem_filterMap.1 h
  exact (standsIn_of_at? (Focus.mem_walk_iff.1 hf) hs).2

namespace StandsIn

variable {s t : Site}

/-- The value is the first thing named inside braces. -/
theorem exists_braces (h : s.StandsIn root) :
    ∃ braces : Focus, braces.IsIn root ∧ braces.node.is .jsxExpression = true ∧
      braces.firstNamed? = some s.expression := by
  obtain ⟨b, hb, his, hfirst⟩ := h.braced
  exact ⟨s.place.down b, h.place_isIn.down hb, his, hfirst⟩

theorem expression_isIn (h : s.StandsIn root) : s.expression.IsIn root := by
  obtain ⟨braces, hbraces, -, hfirst⟩ := h.exists_braces
  exact hbraces.firstNamed hfirst

theorem component_mem_outward (h : s.StandsIn root) : s.component ∈ s.expression.outward :=
  List.mem_cons_of_mem _ h.component_around

theorem component_isIn (h : s.StandsIn root) : s.component.IsIn root :=
  h.expression_isIn.of_mem_outward h.component_mem_outward

/-- A function is read by none of the rules for braces and programs. -/
theorem isFunction_not_is {n : Node} (h : n.isFunction = true) :
    n.is .jsxExpression = false ∧ n.is .program = false := by
  constructor <;>
  · rw [Bool.eq_false_iff]
    intro his
    simp only [Node.is, beq_iff_eq] at his
    simp [Node.isFunction, Node.isOneOf, Node.isToken, his, functionKinds] at h

/-- The value is a child of its braces. -/
theorem exists_down (h : s.StandsIn root) :
    ∃ (braces : Focus) (n : Node), braces.IsIn root ∧ braces.node.is .jsxExpression = true ∧
      n ∈ braces.node.children ∧ s.expression = braces.down n := by
  obtain ⟨braces, hbraces, his, hfirst⟩ := h.exists_braces
  obtain ⟨n, hn, heq⟩ := Option.map_eq_some_iff.1 hfirst
  exact ⟨braces, n, hbraces, his, Node.mem_of_firstNamed? hn, heq.symm⟩

/-- Braces open before the first thing named inside of them. -/
theorem start_lt_of_firstNamed? (hroot : root.WellFormed) {braces : Focus} {n : Node}
    (hbraces : braces.IsIn root) (his : braces.node.is .jsxExpression = true)
    (hn : braces.node.firstNamed? = some n) : braces.node.start < n.start := by
  have hopens := hroot.braced _ hbraces.mem_walk
  have hnests := hbraces.nests hroot
  have hnamed := Node.isNamed_of_firstNamed? hn
  have hmem := Node.mem_of_firstNamed? hn
  rw [Node.opensBraces, his, Bool.not_true, Bool.false_or] at hopens
  rw [Node.nests_iff] at hnests
  cases hchildren : braces.node.children with
  | nil =>
    rw [hchildren] at hmem
    simp at hmem
  | cons c cs =>
    rw [hchildren] at hopens hnests hmem
    simp only [List.head?_cons, Option.all_some, Bool.not_eq_true'] at hopens
    simp only [Node.nestsBetween, Bool.and_eq_true, decide_eq_true_eq] at hnests
    rcases List.mem_cons.1 hmem with rfl | hmem
    · rw [hnamed] at hopens
      cases hopens
    · have hbounds := (Node.bounds_of_nestsBetween hnests.2).2 n hmem
      omega

/-- All that lies around a value starts before it. -/
theorem start_lt (hroot : root.WellFormed) (h : s.StandsIn root) {g : Focus}
    (hg : g ∈ Focus.ofAbove s.expression.above) : g.node.start < s.expression.node.start := by
  obtain ⟨braces, hbraces, his, hfirst⟩ := h.exists_braces
  obtain ⟨n, hn, heq⟩ := Option.map_eq_some_iff.1 hfirst
  rw [← heq] at hg ⊢
  have hcovers := hbraces.covers hroot hg
  exact Nat.lt_of_le_of_lt hcovers.1 (start_lt_of_firstNamed? hroot hbraces his hn)

/-- A value is not a child of anything but braces. -/
theorem ne_down (h : s.StandsIn root) {p : Focus} (hp : p.node.is .jsxExpression = false)
    (c : Node) : s.expression ≠ p.down c := by
  obtain ⟨braces, n, -, his, -, heq⟩ := h.exists_down
  rw [heq]
  intro hdown
  have habove : braces.node :: braces.above = p.node :: p.above := congrArg Focus.above hdown
  rw [(List.cons.inj habove).1, hp] at his
  cases his

/-- No component lies inside the value of a site. -/
theorem expression_not_mem_outward (hs : s.StandsIn root) (ht : t.StandsIn root) :
    t.expression ∉ s.component.outward := by
  intro hmem
  obtain ⟨braces, n, -, his, -, heq⟩ := ht.exists_down
  have habove : braces.node ∈ s.component.above := by
    refine (Focus.above_suffix hmem).subset ?_
    rw [heq]
    exact List.mem_cons_self
  have hinside : s.component.isInsideBraces = true := List.any_eq_true.2 ⟨_, habove, his⟩
  rw [hs.component_free] at hinside
  cases hinside

end StandsIn

end Site

namespace Focus

/-- One of the two ends of a place. -/
def IsEnd (f : Focus) (x : Nat) : Prop := x = f.node.start ∨ x = f.node.stop

/-- The ends of a place fall strictly inside another one only if that one lies around it. -/
theorem IsIn.end_outside {root : Node} {f g : Focus} (hroot : root.WellFormed) (hf : f.IsIn root)
    (hg : g.IsIn root) (h : g ∉ f.outward) {x : Nat} (hx : f.IsEnd x) :
    g.node.stop ≤ x ∨ x ≤ g.node.start := by
  have hle := hf.start_le_stop hroot
  rcases nested_or_apart hroot hf hg with hmem | hmem | hapart
  · exact absurd hmem h
  · obtain ⟨h₁, h₂⟩ := hg.covers hroot hmem
    rcases hx with rfl | rfl
    · exact .inr h₁
    · exact .inl h₂
  · rcases hx with rfl | rfl <;> rcases hapart with hlt | hlt <;> omega

end Focus

namespace Site.StandsIn

variable {root : Node} {s t : Site}

/-- The ends of a child fall strictly inside a value only if the value lies around its parent, which
is no braces. -/
theorem end_outside_expression (hroot : root.WellFormed) (h : s.StandsIn root) {p : Focus}
    {c : Node} (hp : p.IsIn root) (hc : c ∈ p.node.children)
    (hbraces : p.node.is .jsxExpression = false) (hmem : s.expression ∉ p.outward) {x : Nat}
    (hx : (p.down c).IsEnd x) : s.expression.node.stop ≤ x ∨ x ≤ s.expression.node.start := by
  refine (hp.down hc).end_outside hroot h.expression_isIn ?_ hx
  intro hout
  rcases List.mem_cons.1 hout with heq | hout
  · exact h.ne_down hbraces c heq
  · exact hmem hout

theorem above_ne_nil (h : s.StandsIn root) : s.expression.above ≠ [] := by
  obtain ⟨braces, n, -, -, -, heq⟩ := h.exists_down
  rw [heq]
  exact List.cons_ne_nil _ _

/-- Values that start together are the same one. -/
theorem expression_eq_of_start_eq (hroot : root.WellFormed) (hs : s.StandsIn root)
    (ht : t.StandsIn root) (h : s.expression.node.start = t.expression.node.start) :
    s.expression = t.expression := by
  rcases Focus.IsIn.nested_or_apart hroot hs.expression_isIn ht.expression_isIn with
    hmem | hmem | hapart
  · rcases Focus.mem_outward_iff.1 hmem with heq | hmem
    · exact heq.symm
    · have hlt := hs.start_lt hroot hmem
      omega
  · rcases Focus.mem_outward_iff.1 hmem with heq | hmem
    · exact heq
    · have hlt := ht.start_lt hroot hmem
      omega
  · have hsize := hs.expression_isIn.start_lt_stop hroot hs.above_ne_nil
    have htsize := ht.expression_isIn.start_lt_stop hroot ht.above_ne_nil
    rcases hapart with hlt | hlt <;> omega

/-- Sites with the same value stand at the same place. -/
theorem place_eq_of_expression_eq (hs : s.StandsIn root) (ht : t.StandsIn root)
    (h : s.expression = t.expression) : s.place = t.place := by
  obtain ⟨b, -, -, hfirst⟩ := hs.braced
  obtain ⟨c, -, -, hfirst'⟩ := ht.braced
  obtain ⟨n, -, hn⟩ := Option.map_eq_some_iff.1 hfirst
  obtain ⟨k, -, hk⟩ := Option.map_eq_some_iff.1 hfirst'
  have habove : ((s.place.down b).down n).above = ((t.place.down c).down k).above :=
    congrArg Focus.above (hn.trans (h.trans hk.symm))
  obtain ⟨-, habove⟩ := List.cons.inj habove
  obtain ⟨hnode, habove⟩ := List.cons.inj habove
  calc s.place = ⟨s.place.node, s.place.above⟩ := rfl
    _ = ⟨t.place.node, t.place.above⟩ := by rw [hnode, habove]
    _ = t.place := rfl

/-- No value holds a whole statement of the module. -/
theorem not_covers_statement {n : Node} (hroot : root.WellFormed) (hs : s.StandsIn root)
    (hn : n ∈ root.children) : ¬s.expression.Covers (root.focus.down n) := by
  intro hcovers
  have hfocus : root.focus.IsIn root := .root
  have hne : s.expression ≠ root.focus.down n := by
    refine hs.ne_down ?_ n
    rw [Bool.eq_false_iff]
    intro his
    cases Node.eq_of_is hroot.program his
  rcases (hfocus.down hn).mem_outward_of_covers hroot hs.expression_isIn (List.cons_ne_nil _ _)
    hcovers with hmem | hmem
  · rcases List.mem_cons.1 hmem with heq | hmem
    · exact hne heq
    · exact hs.above_ne_nil (congrArg Focus.above (List.mem_singleton.1 hmem))
  · rcases Focus.mem_outward_iff.1 hmem with heq | hmem
    · exact hne heq.symm
    · have hlt := hs.start_lt hroot hmem
      have hle := hcovers.1
      omega

end Site.StandsIn

/-- The values of the sites of a source start at different offsets. -/
theorem Site.pairwise_all (source : Source) (o : Options) (ignored : IgnoreList) :
    (all source o ignored).Pairwise
      fun s t => s.expression.node.start ≠ t.expression.node.start := by
  have hnodup := List.pairwise_map.1 (Focus.nodup_map_id_walk source.wellFormed)
  refine List.pairwise_filterMap.2 (hnodup.imp_of_mem ?_)
  intro f g hf hg hne s hs t ht hstart
  obtain ⟨rfl, hs'⟩ := standsIn_of_at? (Focus.mem_walk_iff.1 hf) hs
  obtain ⟨rfl, ht'⟩ := standsIn_of_at? (Focus.mem_walk_iff.1 hg) ht
  have hexpression := hs'.expression_eq_of_start_eq source.wellFormed ht' hstart
  exact hne (congrArg Focus.id (hs'.place_eq_of_expression_eq ht' hexpression))

end StableProps

import StableProps.Proofs.Lift.Uses
import StableProps.Proofs.Patch.Anchor

/-!
# Between declarations and values

A hook in the block of a component stands next to a statement of the block: behind all that declare
names of the component, as far as the value uses them, and before the one that holds the value. No
statement is both, since it would have to end before it starts.
-/

namespace StableProps

/-! ## Statements of a block -/

/-- The statement of a block that holds a place is the child of the block around the place. -/
theorem Focus.statementIn?_eq_some_iff {root : Node} (hroot : root.WellFormed) {f block g : Focus}
    (hf : f.IsIn root) (hblock : block.IsIn root) :
    f.statementIn? block.node = some g ↔
      ∃ c ∈ block.node.children, g = block.down c ∧ block.down c ∈ f.outward := by
  have hfound {g : Focus} (h : f.statementIn? block.node = some g) :
      ∃ c ∈ block.node.children, g = block.down c ∧ block.down c ∈ f.outward := by
    obtain ⟨c, hc, rfl⟩ := exists_of_statementIn? hroot hf hblock h
    rw [statementIn?, findUp?] at h
    exact ⟨c, hc, rfl, List.mem_of_find?_eq_some h⟩
  refine ⟨hfound, ?_⟩
  rintro ⟨c, hc, rfl, hmem⟩
  have hsome : (f.statementIn? block.node).isSome = true :=
    List.find?_isSome.2 ⟨_, hmem, by simp [down]⟩
  obtain ⟨g, hg⟩ := Option.isSome_iff_exists.1 hsome
  obtain ⟨d, -, rfl, hd⟩ := hfound hg
  rw [hg, child_eq_of_mem_outward hmem hd]

/-- A value in the body of its component is not the body. -/
theorem Site.StandsIn.body_mem_ofAbove {root : Node} {s : Site} (hs : s.StandsIn root) {body : Node}
    (h : s.component.down body ∈ s.expression.outward) :
    s.component.down body ∈ Focus.ofAbove s.expression.above := by
  have hbraces := (isFunction_not_is hs.component_isFunction).1
  exact (Focus.mem_outward_iff.1 h).resolve_left (hs.ne_down hbraces body).symm

private theorem exists_mem_of_mapM {α β : Type} {f : α → Option β} {as : List α} {bs : List β}
    (h : as.mapM f = some bs) {a : α} (ha : a ∈ as) : ∃ b ∈ bs, f a = some b := by
  induction as generalizing bs with
  | nil => simp at ha
  | cons first as ih =>
    rw [List.mapM_cons] at h
    obtain ⟨b, hb, h⟩ := Option.bind_eq_some_iff.1 h
    obtain ⟨rest, hrest, h⟩ := Option.bind_eq_some_iff.1 h
    obtain rfl := Option.some.inj h
    rcases List.mem_cons.1 ha with rfl | ha
    · exact ⟨b, List.mem_cons_self, hb⟩
    · obtain ⟨c, hc, heq⟩ := ih hrest ha
      exact ⟨c, List.mem_cons_of_mem _ hc, heq⟩

namespace HookAnchor

private theorem latest?_append_singleton (statements : List Node) (s : Node) :
    latest? (statements ++ [s]) = some (match latest? statements with
      | none => s
      | some b => if b.stop < s.stop then s else b) := by
  rw [latest?, List.foldl_append, ← latest?]
  cases latest? statements with
  | none => rfl
  | some b =>
    simp only [List.foldl_cons, List.foldl_nil]
    split <;> rfl

private theorem eq_nil_of_latest?_eq_none {statements : List Node} (h : latest? statements = none) :
    statements = [] := by
  rcases List.eq_nil_or_concat statements with rfl | ⟨rest, s, rfl⟩
  · rfl
  · rw [List.concat_eq_append, latest?_append_singleton] at h
    cases h

/-- The statement that ends last ends behind all others. -/
theorem stop_le_of_latest? {statements : List Node} {last : Node}
    (h : latest? statements = some last) {s : Node} (hs : s ∈ statements) : s.stop ≤ last.stop := by
  induction statements using List.reverseRecOn generalizing last with
  | nil => simp at hs
  | append_singleton statements t ih =>
    rw [latest?_append_singleton] at h
    have hlast := Option.some.inj h
    rw [List.mem_append, List.mem_singleton] at hs
    split at hlast
    next hnone =>
      obtain rfl := hlast
      rcases hs with hs | rfl
      · rw [eq_nil_of_latest?_eq_none hnone] at hs
        simp at hs
      · exact Nat.le_refl _
    next b hb =>
      have hbest : s ∈ statements → s.stop ≤ b.stop := ih hb
      split at hlast
      next hlt =>
        obtain rfl := hlast
        rcases hs with hs | rfl
        · exact Nat.le_trans (hbest hs) (Nat.le_of_lt hlt)
        · exact Nat.le_refl _
      next hle =>
        obtain rfl := hlast
        rcases hs with hs | rfl
        · exact hbest hs
        · exact Nat.le_of_not_lt hle

/-- The earlier of two statements does not start behind the second one. -/
theorem start_le_of_earlier? {a : Option Node} {b n : Node} (h : earlier? a (some b) = some n) :
    n.start ≤ b.start := by
  cases a with
  | none =>
    obtain rfl := Option.some.inj h
    exact Nat.le_refl _
  | some a =>
    rw [earlier?] at h
    split at h
    · exact Option.some.inj h ▸ Nat.le_refl _
    next hle => exact Option.some.inj h ▸ Nat.le_of_not_lt hle

/-- What can stand next to a hook in a block: a statement that returns or acts, the statement with
the value, or, before the hook, the statement of a declaration. -/
inductive IsNextTo (block : Node) (site : Node) (declaring : List Node) : Nat → Prop where
  | leading {n : Node} : firstLeading? block = some n → IsNextTo block site declaring n.start
  | site : IsNextTo block site declaring site.start
  | declaration {n : Node} : n ∈ declaring → IsNextTo block site declaring n.stop

/-- A hook in a block stands next to one of the statements that were looked at, in an order that
suits all of them. -/
theorem isNextTo_of_inBlock? {bs : Bytes} {block : Node} {expression : Focus}
    {references : List Reference} {anchor : HookAnchor}
    (h : inBlock? bs block expression references = some anchor) {site : Focus}
    (hsite : expression.statementIn? block = some site) :
    ∃ declaring, declaringStatements? block references = some declaring ∧
      IsNextTo block site.node declaring anchor.offset ∧ anchor.offset ≤ site.node.start ∧
        ∀ n ∈ declaring, n.stop ≤ anchor.offset := by
  simp only [inBlock?, bind, Option.bind_eq_some_iff] at h
  obtain ⟨first, hfirst, declaring, hdeclaring, h⟩ := h
  rw [hsite] at hfirst h
  have hstart : first.start ≤ site.node.start := start_le_of_earlier? hfirst
  refine ⟨declaring, hdeclaring, ?_⟩
  split at h
  next hnone =>
    obtain rfl := Option.some.inj h
    refine ⟨?_, hstart, ?_⟩
    · rcases eq_of_earlier? hfirst with hleading | hsite
      · exact .leading hleading
      · obtain rfl := Option.some.inj hsite
        exact .site
    · intro n hn
      cases hlast : latest? declaring with
      | none =>
        rw [eq_nil_of_latest?_eq_none hlast] at hn
        simp at hn
      | some last =>
        rw [hlast] at hnone
        have hle : last.stop ≤ first.start := by simpa using hnone
        exact Nat.le_trans (stop_le_of_latest? hlast hn) hle
  next last hlast =>
    obtain ⟨hlast, -⟩ := Option.filter_eq_some_iff.1 hlast
    split at h
    · cases h
    next hsite =>
      obtain rfl := Option.some.inj h
      refine ⟨.declaration (mem_of_latest? hlast), ?_, fun n hn => stop_le_of_latest? hlast hn⟩
      simpa using hsite

/-! ## Places in a block -/

/-- A place in a block between the declarations of the names that a value uses and the value. -/
structure StandsBetween (anchor : HookAnchor) (block expression : Focus)
    (references : List Reference) : Prop where
  /-- It is the start of a statement that returns, acts or holds the value, or the end of one that
  declares a name of the component. -/
  at_statement : ∃ c ∈ block.node.children,
    anchor.offset = c.start ∧
        (c.isOneOf leadingKinds = true ∨ block.down c ∈ expression.outward) ∨
      anchor.offset = c.stop ∧ ∃ r ∈ Reference.ownNames references,
        block.down c ∈ r.symbol.declaration.outward
  /-- The statements that declare names of the component come before it, parameters apart. -/
  behind_declarations : ∀ r ∈ Reference.ownNames references, r.symbol.kind ≠ .parameter →
    ∃ c ∈ block.node.children, block.down c ∈ r.symbol.declaration.outward ∧
      c.stop ≤ anchor.offset
  /-- The statement that holds the value comes after it. -/
  before_value : ∃ c ∈ block.node.children, block.down c ∈ expression.outward ∧
    anchor.offset ≤ c.start

variable {root : Node} {block : Focus} {references : List Reference} {declaring : List Node}

/-- The statements that declare names are the children of the block around the declarations. -/
theorem exists_of_declaringStatements? (hroot : root.WellFormed) (hblock : block.IsIn root)
    (hin : ∀ r ∈ Reference.ownNames references, r.symbol.declaration.IsIn root)
    (h : declaringStatements? block.node references = some declaring) :
    (∀ r ∈ Reference.ownNames references, r.symbol.kind ≠ .parameter →
      ∃ c ∈ declaring, c ∈ block.node.children ∧ block.down c ∈ r.symbol.declaration.outward) ∧
    ∀ c ∈ declaring, c ∈ block.node.children ∧
      ∃ r ∈ Reference.ownNames references, block.down c ∈ r.symbol.declaration.outward := by
  have hstatement {r : Reference} (hr : r ∈ Reference.ownNames references) {n : Node}
      (h : (r.symbol.declaration.statementIn? block.node).map (·.node) = some n) :
      n ∈ block.node.children ∧ block.down n ∈ r.symbol.declaration.outward := by
    obtain ⟨g, hg, rfl⟩ := Option.map_eq_some_iff.1 h
    obtain ⟨c, hc, rfl, hmem⟩ := (Focus.statementIn?_eq_some_iff hroot (hin r hr) hblock).1 hg
    exact ⟨hc, hmem⟩
  constructor
  · intro r hr hkind
    obtain ⟨n, hn, heq⟩ := exists_mem_of_mapM h (List.mem_filter.2 ⟨hr, by simpa using hkind⟩)
    exact ⟨n, hn, hstatement hr heq⟩
  · intro n hn
    obtain ⟨r, hr, heq⟩ := exists_of_mem_mapM (m := Option) h hn
    have hr := (List.mem_filter.1 hr).1
    obtain ⟨hchild, hmem⟩ := hstatement hr heq
    exact ⟨hchild, r, hr, hmem⟩

/-- A hook in a block with the value stands between the declarations and the value. -/
theorem standsBetween_of_inBlock? (hroot : root.WellFormed) (hblock : block.IsIn root)
    (hin : ∀ r ∈ Reference.ownNames references, r.symbol.declaration.IsIn root)
    {expression : Focus} (hexpression : expression.IsIn root)
    (hinside : block ∈ Focus.ofAbove expression.above) {bs : Bytes} {anchor : HookAnchor}
    (h : inBlock? bs block.node expression references = some anchor) :
    anchor.StandsBetween block expression references := by
  obtain ⟨c, hc, hcmem⟩ := hexpression.exists_child_of_mem_ofAbove hinside
  have hsite := (Focus.statementIn?_eq_some_iff hroot hexpression hblock).2 ⟨c, hc, rfl, hcmem⟩
  obtain ⟨declaring, hdeclaring, hnext, hbefore, hbehind⟩ := isNextTo_of_inBlock? h hsite
  obtain ⟨hdeclares, hdeclaringIn⟩ := exists_of_declaringStatements? hroot hblock hin hdeclaring
  refine ⟨?_, ?_, c, hc, hcmem, hbefore⟩
  · generalize anchor.offset = offset at hnext ⊢
    cases hnext with
    | leading hleading =>
      have hkind := List.find?_some (p := fun n : Node => n.isOneOf leadingKinds) hleading
      exact ⟨_, mem_of_firstLeading? hleading, .inl ⟨rfl, .inl hkind⟩⟩
    | site => exact ⟨c, hc, .inl ⟨rfl, .inr hcmem⟩⟩
    | declaration hn =>
      obtain ⟨hchild, hr⟩ := hdeclaringIn _ hn
      exact ⟨_, hchild, .inr ⟨rfl, hr⟩⟩
  · intro r hr hkind
    obtain ⟨d, hd, hchild, hmem⟩ := hdeclares r hr hkind
    exact ⟨d, hchild, hmem, hbehind d hd⟩

/-- No name is declared in the statement that holds the value. -/
theorem StandsBetween.elsewhere (hroot : root.WellFormed) (hblock : block.IsIn root)
    {anchor : HookAnchor} {expression : Focus}
    (h : anchor.StandsBetween block expression references) {r : Reference}
    (hr : r ∈ Reference.ownNames references) (hkind : r.symbol.kind ≠ .parameter) :
    ∃ c ∈ block.node.children, block.down c ∈ r.symbol.declaration.outward ∧
      block.down c ∉ expression.outward := by
  obtain ⟨c, hc, hcmem, hbehind⟩ := h.behind_declarations r hr hkind
  obtain ⟨d, hd, hdmem, hbefore⟩ := h.before_value
  refine ⟨c, hc, hcmem, fun hsame => ?_⟩
  -- The statement would end before it starts.
  obtain rfl := Focus.child_eq_of_mem_outward hdmem hsame
  have hlt := (hblock.child_bounds hroot hc).2.1
  omega

end HookAnchor

/-! ## Names of the component -/

/-- The names of a component among the references of an expression are used by the expression, and
declared in the module. -/
theorem Project.own_of_references {p : Project (Except Failure)} {source : Source}
    {i : ModuleIndex} (hindexed : i.IsOf source) {expression component : Focus}
    (hexpression : expression.IsIn source.root) {references : List Reference}
    (h : p.references i expression component = .ok (.ok references)) {r : Reference}
    (hr : r ∈ Reference.ownNames references) :
    r.symbol ∈ (ScopeTree.ofModule source.root).outerUses expression ∧
      r.symbol.isDeclaredBy component = true ∧ r.symbol.declaration.IsIn source.root := by
  obtain ⟨hr, hsort⟩ := List.mem_filter.1 hr
  obtain ⟨hsymbols, hclasses⟩ := classify_of_classifyAll h
  have hmem : r.symbol ∈ i.scopes.outerSymbols expression := hsymbols ▸ List.mem_map_of_mem hr
  rw [hindexed.scopes] at hmem
  have hdeclared :=
    ScopeTree.declaredIn_of_mem_outerSymbols source.wellFormed hexpression hmem
  rw [ScopeTree.outerSymbols_eq] at hmem
  exact ⟨mem_of_mem_distinctBy hmem,
    (isDeclaredBy_of_classify (hclasses r hr)).2.2 (by simpa using hsort),
    hdeclared.declaration_isIn⟩

end StableProps

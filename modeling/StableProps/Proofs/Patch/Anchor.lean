import StableProps.Patch.Anchor
import StableProps.Proofs.Outcome
import StableProps.Proofs.Patch.Overlap
import StableProps.Proofs.Site.Place

/-!
# Where insertions stand

A hook is inserted at an end of the body of its component, or of a statement of that body.
Constants and imports of the module are inserted at an end of a statement at its top. None of these
offsets falls strictly inside a value that is replaced, whichever site the value belongs to.
-/

namespace StableProps

/-! ## Hooks -/

/-- An end of the body of a function, or of a statement of a body that is a block. -/
def Focus.IsBodyOffset (component : Focus) (x : Nat) : Prop :=
  ∃ body ∈ component.node.children, (component.down body).IsEnd x ∨
    body.is .statementBlock = true ∧ ∃ c ∈ body.children, ((component.down body).down c).IsEnd x

/-- The statement of a block that holds a place is a child of the block. -/
theorem Focus.exists_of_statementIn? {root : Node} (hroot : root.WellFormed) {f block g : Focus}
    (hf : f.IsIn root) (hblock : block.IsIn root) (h : f.statementIn? block.node = some g) :
    ∃ c ∈ block.node.children, g = block.down c := by
  rw [statementIn?, findUp?] at h
  have hg := hf.of_mem_outward (List.mem_of_find?_eq_some h)
  have hparent := List.find?_some h
  rcases hg.eq_root_or_down with rfl | ⟨p, c, hp, hc, rfl⟩
  · simp [Node.focus] at hparent
  · have hid : p.node.id = block.node.id := by simpa [down] using hparent
    obtain rfl := hp.eq_of_id_eq hroot hblock hid
    exact ⟨c, hc, rfl⟩

namespace HookAnchor

theorem mem_of_firstLeading? {block n : Node} (h : firstLeading? block = some n) :
    n ∈ block.children :=
  Node.mem_of_mem_namedChildren (List.mem_of_find?_eq_some h)

theorem eq_of_earlier? {a b : Option Node} {n : Node} (h : earlier? a b = some n) :
    a = some n ∨ b = some n := by
  cases a with
  | none => exact .inr h
  | some a =>
    cases b with
    | none => exact .inl h
    | some b =>
      rw [earlier?] at h
      split at h
      · exact .inr h
      · exact .inl h

/-- The statement that ends last is one of those given. -/
theorem mem_of_latest? {statements : List Node} {n : Node} (h : latest? statements = some n) :
    n ∈ statements := by
  have hinv : ∀ n, latest? statements = some n → n ∈ statements := by
    rw [latest?]
    refine List.foldlRecOn (motive := fun (best : Option Node) =>
      ∀ n, best = some n → n ∈ statements) statements _ (by simp) ?_
    intro best ih s hs n hn
    split at hn
    · exact Option.some.inj hn ▸ hs
    · split at hn
      · exact Option.some.inj hn ▸ hs
      · exact ih n (by rw [hn])
  exact hinv n h

variable {root : Node}

/-- The statements that declare the names of a value are children of the block. -/
theorem mem_of_mem_declaringStatements? (hroot : root.WellFormed) {block : Focus}
    (hblock : block.IsIn root) {references : List Reference}
    (hrefs : ∀ r ∈ references, r.symbol.declaration.IsIn root) {statements : List Node}
    (h : declaringStatements? block.node references = some statements) {n : Node}
    (hn : n ∈ statements) : n ∈ block.node.children := by
  obtain ⟨r, hr, hstatement⟩ := exists_of_mem_mapM (m := Option) h hn
  obtain ⟨g, hg, rfl⟩ := Option.map_eq_some_iff.1 hstatement
  have hmem : r ∈ references := (List.mem_filter.1 (List.mem_filter.1 hr).1).1
  obtain ⟨c, hc, rfl⟩ := Focus.exists_of_statementIn? hroot (hrefs r hmem) hblock hg
  exact hc

/-- A hook in a block is inserted at an end of a statement of it. -/
theorem isEnd_of_inBlock? (hroot : root.WellFormed) {bs : Bytes} {block expression : Focus}
    (hblock : block.IsIn root) (hexpression : expression.IsIn root) {references : List Reference}
    (hrefs : ∀ r ∈ references, r.symbol.declaration.IsIn root) {anchor : HookAnchor}
    (h : inBlock? bs block.node expression references = some anchor) :
    anchor.wrap = none ∧ ∃ c ∈ block.node.children, (block.down c).IsEnd anchor.offset := by
  simp only [inBlock?, bind, Option.bind_eq_some_iff] at h
  obtain ⟨first, hfirst, declaring, hdeclaring, h⟩ := h
  have hmem : first ∈ block.node.children := by
    rcases eq_of_earlier? hfirst with hleading | hsite
    · exact mem_of_firstLeading? hleading
    · obtain ⟨g, hg, rfl⟩ := Option.map_eq_some_iff.1 hsite
      obtain ⟨c, hc, rfl⟩ := Focus.exists_of_statementIn? hroot hexpression hblock hg
      exact hc
  split at h
  · obtain rfl := Option.some.inj h
    exact ⟨rfl, first, hmem, .inl rfl⟩
  next last hlast =>
    split at h
    · cases h
    · obtain rfl := Option.some.inj h
      have hlast := mem_of_latest? (Option.filter_eq_some_iff.1 hlast).1
      exact ⟨rfl, last, mem_of_mem_declaringStatements? hroot hblock hrefs hdeclaring hlast,
        .inr rfl⟩

/-- A hook is inserted at ends of the body of its component or of a statement in it. -/
theorem isBodyOffset_of_find? (hroot : root.WellFormed) {bs : Bytes} {component expression : Focus}
    (hcomponent : component.IsIn root) (hexpression : expression.IsIn root)
    {references : List Reference} (hrefs : ∀ r ∈ references, r.symbol.declaration.IsIn root)
    {anchor : HookAnchor} (h : find? bs component expression references = some anchor)
    (declaration : String) :
    ∀ x ∈ (anchor.insertion declaration).offsets, component.IsBodyOffset x := by
  rw [find?] at h
  split at h
  · cases h
  · split at h
    · cases h
    next body hbody =>
      have hmem := Node.mem_of_child? hbody
      split at h
      next hblock =>
        have hbody : (component.down body).IsIn root := hcomponent.down hmem
        obtain ⟨hwrap, c, hc, hend⟩ := isEnd_of_inBlock? hroot hbody hexpression hrefs h
        have hoffsets : (anchor.insertion declaration).offsets = [anchor.offset] := by
          rw [insertion, hwrap]
          cases anchor.after <;> rfl
        intro x hx
        rw [hoffsets, List.mem_singleton] at hx
        exact ⟨body, hmem, .inr ⟨hblock, c, hc, hx ▸ hend⟩⟩
      next =>
        obtain rfl := Option.some.inj h
        intro x hx
        simp only [insertion, Insertion.offsets, List.mem_cons, List.not_mem_nil, or_false] at hx
        exact ⟨body, hmem, .inl hx⟩

end HookAnchor

/-! ## Declarations of the module -/

/-- An end of a module or of a statement at the top of it. -/
def Source.IsModuleOffset (s : Source) (x : Nat) : Prop :=
  x = 0 ∨ x = s.root.stop ∨ ∃ c ∈ s.root.children, x = c.stop

namespace Source

variable {s : Source}

private theorem isModuleOffset_of_prologueEnd? {x : Nat} (h : s.prologueEnd? = some x) :
    s.IsModuleOffset x := by
  rw [prologueEnd?] at h
  split at h
  next last hlast =>
    have hmem := (List.mem_filter.1 (List.mem_of_getLast? hlast)).1
    exact .inr (.inr ⟨last, Node.mem_of_mem_namedChildren hmem, (Option.some.inj h).symm⟩)
  next =>
    obtain ⟨last, hlast, rfl⟩ := Option.map_eq_some_iff.1 h
    have hmem := (List.takeWhile_subset _) (List.mem_of_getLast? hlast)
    exact .inr (.inr ⟨last, Node.mem_of_mem_namedChildren (List.mem_filter.1 hmem).1, rfl⟩)

theorem isModuleOffset_importInsertion (statement : String) {x : Nat}
    (hx : x ∈ (s.importInsertion statement).offsets) : s.IsModuleOffset x := by
  rw [importInsertion] at hx
  split at hx
  · exact .inl (List.mem_singleton.1 hx)
  next stop hstop => exact List.mem_singleton.1 hx ▸ isModuleOffset_of_prologueEnd? hstop

theorem isModuleOffset_constantInsertion (declaration : String) (position : Position) {x : Nat}
    (hx : x ∈ (s.constantInsertion declaration position).offsets) : s.IsModuleOffset x := by
  cases position with
  | start =>
    rw [constantInsertion] at hx
    split at hx
    · exact .inl (List.mem_singleton.1 hx)
    next stop hstop => exact List.mem_singleton.1 hx ▸ isModuleOffset_of_prologueEnd? hstop
  | «end» =>
    replace hx := List.mem_singleton.1 hx
    rw [constantInsertion] at hx
    cases hlast : (s.root.children.filter (!·.is .comment)).getLast? with
    | none =>
      rw [hlast] at hx
      exact .inr (.inl (hx.trans s.stop_root.symm))
    | some last =>
      rw [hlast] at hx
      exact .inr (.inr ⟨last, (List.mem_filter.1 (List.mem_of_getLast? hlast)).1, hx⟩)

end Source

/-! ## Insertions and values -/

namespace Site.StandsIn

variable {root : Node} {s t : Site}

/-- No hook is inserted strictly inside a value. -/
theorem outside_of_isBodyOffset (hroot : root.WellFormed) (hs : s.StandsIn root)
    (ht : t.StandsIn root) {x : Nat} (hx : t.component.IsBodyOffset x) :
    s.expression.node.stop ≤ x ∨ x ≤ s.expression.node.start := by
  have hnot := ht.expression_not_mem_outward hs
  have hcomponent := (isFunction_not_is ht.component_isFunction).1
  obtain ⟨body, hbody, hend | ⟨hblock, c, hc, hend⟩⟩ := hx
  · exact hs.end_outside_expression hroot ht.component_isIn hbody hcomponent hnot hend
  · refine hs.end_outside_expression hroot (ht.component_isIn.down hbody) hc ?_ ?_ hend
    · rw [Bool.eq_false_iff]
      intro his
      cases Node.eq_of_is hblock his
    · intro hmem
      rcases List.mem_cons.1 hmem with heq | hmem
      · exact hs.ne_down hcomponent body heq
      · exact hnot hmem

/-- Nothing of the module is inserted strictly inside a value. -/
theorem outside_of_isModuleOffset {source : Source} (hs : s.StandsIn source.root) {x : Nat}
    (hx : source.IsModuleOffset x) :
    s.expression.node.stop ≤ x ∨ x ≤ s.expression.node.start := by
  have hroot := source.wellFormed
  have hfocus : source.focus.IsIn source.root := .root
  rcases hx with rfl | rfl | ⟨c, hc, rfl⟩
  · exact .inr (Nat.zero_le _)
  · exact .inl (hs.expression_isIn.covers hroot hs.expression_isIn.root_mem_outward).2
  · refine hs.end_outside_expression hroot hfocus hc ?_ ?_ (.inr rfl)
    · rw [Bool.eq_false_iff]
      intro his
      cases Node.eq_of_is hroot.program his
    · intro hmem
      obtain ⟨braces, n, -, -, -, heq⟩ := hs.exists_down
      rw [heq] at hmem
      cases congrArg Focus.above (List.mem_singleton.1 hmem)

/-- A hook is inserted strictly inside a statement of the module only if that statement lies around
the value it is made for. -/
theorem statement_outside_of_isBodyOffset (hroot : root.WellFormed) (hs : s.StandsIn root)
    {n : Node} (hn : n ∈ root.children) (hnot : root.focus.down n ∉ s.expression.outward) {x : Nat}
    (hx : s.component.IsBodyOffset x) : n.stop ≤ x ∨ x ≤ n.start := by
  have hstatement : (root.focus.down n).IsIn root := Focus.IsIn.root.down hn
  have hcomponent : root.focus.down n ∉ s.component.outward :=
    fun hmem => hnot (Focus.mem_outward_trans hs.component_mem_outward hmem)
  -- A body is no statement of the module, since the module is no function.
  have hbody (body : Node) : root.focus.down n ∉ (s.component.down body).outward := by
    intro hmem
    rcases List.mem_cons.1 hmem with heq | hmem
    · have hnode : root = s.component.node := (List.cons.inj (congrArg Focus.above heq)).1
      have hprogram := (isFunction_not_is hs.component_isFunction).2
      rw [← hnode, hroot.program] at hprogram
      cases hprogram
    · exact hcomponent hmem
  obtain ⟨body, hmem, hend | ⟨-, c, hc, hend⟩⟩ := hx
  · exact (hs.component_isIn.down hmem).end_outside hroot hstatement (hbody body) hend
  · refine ((hs.component_isIn.down hmem).down hc).end_outside hroot hstatement ?_ hend
    intro hout
    rcases List.mem_cons.1 hout with heq | hout
    · cases (List.cons.inj (congrArg Focus.above heq)).2
    · exact hbody body hout

end Site.StandsIn

/-- Nothing of the module is inserted strictly inside one of its statements. -/
theorem Source.statement_outside_of_isModuleOffset {s : Source} {n : Node}
    (hn : n ∈ s.root.children) {x : Nat} (hx : s.IsModuleOffset x) : n.stop ≤ x ∨ x ≤ n.start := by
  have hfocus : s.focus.IsIn s.root := .root
  rcases hx with rfl | rfl | ⟨c, hc, rfl⟩
  · exact .inr (Nat.zero_le _)
  · exact .inl (hfocus.child_bounds s.wellFormed hn).2.2
  · rcases hfocus.children_apart s.wellFormed hc hn with rfl | hlt | hlt
    · exact .inl (Nat.le_refl _)
    · exact .inr hlt
    · have hsize := (hfocus.child_bounds s.wellFormed hc).2.1
      exact .inl (Nat.le_trans hlt (Nat.le_of_lt hsize))

end StableProps

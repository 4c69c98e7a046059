import StableProps.Proofs.Patch.Between

/-!
# Hooks and the values they are made for

A value in the body of its component comes after its hook, which stands in the body as well. A value
in another part of the component, such as the default of a parameter, is not reached by hooks. They
are made for it nevertheless, unless the component is a method, has no body, or has a block in which
nothing returns or acts or a name that the value uses is missing.
-/

namespace StableProps

private theorem mapM_eq_none_iff {α β : Type} {f : α → Option β} {as : List α} :
    as.mapM f = none ↔ ∃ a ∈ as, f a = none := by
  induction as with
  | nil => simp
  | cons a as ih =>
    rw [List.mapM_cons]
    simp only [List.mem_cons, exists_eq_or_imp, ← ih]
    cases f a <;> cases as.mapM f <;> simp

namespace HookAnchor

/-- A hook reaches the value of a site: the value lies in the body of the component, and the hook
stands in the body before it. -/
structure Reaches (anchor : HookAnchor) (s : Site) (body : Node) : Prop where
  inside : s.component.down body ∈ s.expression.outward
  start_le : body.start ≤ anchor.offset
  le_start : anchor.offset ≤ s.expression.node.start

/-- What keeps hooks from being made for values outside of the body of a component. -/
inductive IsRefused (component : Focus) (references : List Reference) : Prop where
  /-- Methods have no hooks. -/
  | method : component.node.is .methodDefinition = true → IsRefused component references
  | bodiless : component.node.child? .body = none → IsRefused component references
  /-- Nothing in the block returns or acts. -/
  | inert {body : Node} : component.node.child? .body = some body →
      body.is .statementBlock = true → firstLeading? body = none → IsRefused component references
  /-- A name of the component is neither a parameter nor declared in the block. -/
  | undeclared {body : Node} {r : Reference} : component.node.child? .body = some body →
      body.is .statementBlock = true → r ∈ Reference.ownNames references →
      r.symbol.kind ≠ .parameter →
      (∀ c ∈ body.children, (component.down body).down c ∉ r.symbol.declaration.outward) →
        IsRefused component references

variable {root : Node} {component expression : Focus} {references : List Reference} {bs : Bytes}

/-- Outside of a block a place is in none of its statements. -/
theorem statementIn?_eq_none (hroot : root.WellFormed) {block f : Focus} (hblock : block.IsIn root)
    (hf : f.IsIn root) (h : block ∉ f.outward) : f.statementIn? block.node = none := by
  rw [Option.eq_none_iff_forall_ne_some]
  intro g hg
  obtain ⟨c, -, -, hc⟩ := (Focus.statementIn?_eq_some_iff hroot hf hblock).1 hg
  exact h (Focus.mem_outward_trans hc (List.mem_cons_of_mem _ (Focus.mem_outward_self _)))

/-- In a block without the value there is a place unless nothing leads or a name is not declared
there. -/
theorem inBlock?_eq_none_iff {block : Node} (hsite : expression.statementIn? block = none) :
    inBlock? bs block expression references = none ↔
      firstLeading? block = none ∨ declaringStatements? block references = none := by
  have hfirst : earlier? (firstLeading? block) none = firstLeading? block := by
    cases firstLeading? block <;> rfl
  rw [inBlock?, hsite, Option.map_none, hfirst]
  cases firstLeading? block with
  | none => simp
  | some first =>
    cases declaringStatements? block references with
    | none => simp
    | some declaring =>
      simp only [Option.bind_eq_bind, Option.bind_some]
      split <;> simp

/-- The statements that declare names are missing exactly if one of the names is not declared in
the block. -/
theorem declaringStatements?_eq_none_iff (hroot : root.WellFormed) {block : Focus}
    (hblock : block.IsIn root)
    (hin : ∀ r ∈ Reference.ownNames references, r.symbol.declaration.IsIn root) :
    declaringStatements? block.node references = none ↔
      ∃ r ∈ Reference.ownNames references, r.symbol.kind ≠ .parameter ∧
        ∀ c ∈ block.node.children, block.down c ∉ r.symbol.declaration.outward := by
  have hstatement {r : Reference} (hr : r ∈ Reference.ownNames references) :
      r.symbol.declaration.statementIn? block.node = none ↔
        ∀ c ∈ block.node.children, block.down c ∉ r.symbol.declaration.outward := by
    simp only [Option.eq_none_iff_forall_ne_some, ne_eq,
      Focus.statementIn?_eq_some_iff hroot (hin r hr) hblock]
    exact ⟨fun h c hc hmem => h _ ⟨c, hc, rfl, hmem⟩, fun h g ⟨c, hc, _, hmem⟩ => h c hc hmem⟩
  rw [declaringStatements?, mapM_eq_none_iff]
  simp only [List.mem_filter, decide_eq_true_eq, Option.map_eq_none_iff]
  constructor
  · rintro ⟨r, ⟨hr, hkind⟩, hnone⟩
    exact ⟨r, hr, hkind, (hstatement hr).1 hnone⟩
  · rintro ⟨r, hr, hkind, hnone⟩
    exact ⟨r, ⟨hr, hkind⟩, (hstatement hr).2 hnone⟩

/-- Outside of the body of a component no hook is made exactly if something keeps it from being
made. -/
theorem find?_eq_none_iff (hroot : root.WellFormed) (hcomponent : component.IsIn root)
    (hexpression : expression.IsIn root)
    (hin : ∀ r ∈ Reference.ownNames references, r.symbol.declaration.IsIn root)
    (hbeside : ∀ body, component.node.child? .body = some body →
      component.down body ∉ expression.outward) :
    find? bs component expression references = none ↔ IsRefused component references := by
  have hblock {body : Node} (hbody : component.node.child? .body = some body) :
      inBlock? bs body expression references = none ↔ firstLeading? body = none ∨
        ∃ r ∈ Reference.ownNames references, r.symbol.kind ≠ .parameter ∧
          ∀ c ∈ body.children, (component.down body).down c ∉ r.symbol.declaration.outward := by
    have hbodyIn := hcomponent.down (Node.mem_of_child? hbody)
    have hsite := statementIn?_eq_none hroot hbodyIn hexpression (hbeside body hbody)
    exact (inBlock?_eq_none_iff hsite).trans
      (or_congr_right (declaringStatements?_eq_none_iff hroot hbodyIn hin))
  rw [find?]
  constructor
  · intro h
    split at h
    next hmethod => exact .method hmethod
    next =>
      split at h
      next hbody => exact .bodiless hbody
      next body hbody =>
        split at h
        next his =>
          rcases (hblock hbody).1 h with hfirst | ⟨r, hr, hkind, hnone⟩
          · exact .inert hbody his hfirst
          · exact .undeclared hbody his hr hkind hnone
        next => cases h
  · intro h
    split
    · rfl
    next hmethod =>
      cases h with
      | method his => exact absurd his hmethod
      | bodiless hbody => simp [hbody]
      | inert hbody his hfirst => simp [hbody, his, (hblock hbody).2 (.inl hfirst)]
      | undeclared hbody his hr hkind hnone =>
        simp [hbody, his, (hblock hbody).2 (.inr ⟨_, hr, hkind, hnone⟩)]

/-- In the body of a component a hook stands before the value it is made for. -/
theorem reaches_of_find? (hroot : root.WellFormed) {s : Site} (hs : s.StandsIn root)
    (hin : ∀ r ∈ Reference.ownNames references, r.symbol.declaration.IsIn root) {body : Node}
    (hbody : s.component.node.child? .body = some body)
    (hinside : s.component.down body ∈ s.expression.outward) {anchor : HookAnchor}
    (h : find? bs s.component s.expression references = some anchor) : anchor.Reaches s body := by
  have hmem := Node.mem_of_child? hbody
  have hbodyIn := hs.component_isIn.down hmem
  have hcovers := hs.expression_isIn.covers hroot hinside
  rw [find?, hbody] at h
  split at h
  · cases h
  simp only at h
  split at h
  next hblock =>
    have hbetween := standsBetween_of_inBlock? hroot hbodyIn hin hs.expression_isIn
      (hs.body_mem_ofAbove hinside) h
    refine ⟨hinside, ?_, ?_⟩
    · obtain ⟨c, hc, hoffset⟩ := hbetween.at_statement
      obtain ⟨hstart, hlt, -⟩ := hbodyIn.child_bounds hroot hc
      simp only [Focus.down] at hstart
      rcases hoffset with ⟨heq, -⟩ | ⟨heq, -⟩ <;> omega
    · obtain ⟨c, -, hc, hle⟩ := hbetween.before_value
      exact Nat.le_trans hle (hs.expression_isIn.covers hroot hc).1
  next =>
    obtain rfl := Option.some.inj h
    exact ⟨hinside, Nat.le_refl _, hcovers.1⟩

/-- Every hook that is made for the value of a site reaches it exactly if the value lies in the body
of the component, or none is made because something keeps hooks from values outside of it. -/
theorem reaches_iff_inside_or_isRefused (source : Source)
    (resolve : String → Path → Except Failure (Option Path)) (i : ModuleIndex)
    (hindex : ModuleIndex.ofSource resolve source = .ok i) (options : Options)
    (ignored : IgnoreList) (s : Site) (hs : s ∈ Site.all source options ignored)
    (p : Project (Except Failure)) (references : List Reference)
    (hreferences : p.references i s.expression s.component = .ok (.ok references)) :
    (∀ anchor, find? i.source.bytes s.component s.expression references = some anchor →
      ∃ body, s.component.node.child? .body = some body ∧ anchor.Reaches s body) ↔
    (∃ body, s.component.node.child? .body = some body ∧
      s.component.down body ∈ s.expression.outward) ∨ IsRefused s.component references := by
  have hstands := Site.standsIn_of_mem_all hs
  have hin (r : Reference) (hr : r ∈ Reference.ownNames references) :=
    (Project.own_of_references (ModuleIndex.isOf_ofSource hindex) hstands.expression_isIn
      hreferences hr).2.2
  by_cases hinside : ∃ body, s.component.node.child? .body = some body ∧
      s.component.down body ∈ s.expression.outward
  · obtain ⟨body, hbody, hmem⟩ := hinside
    refine iff_of_true (fun anchor h => ⟨body, hbody, ?_⟩) (.inl ⟨body, hbody, hmem⟩)
    exact reaches_of_find? source.wellFormed hstands hin hbody hmem h
  · have hnone : find? i.source.bytes s.component s.expression references = none ↔
        IsRefused s.component references :=
      find?_eq_none_iff source.wellFormed hstands.component_isIn hstands.expression_isIn hin
        fun body hbody hmem => hinside ⟨body, hbody, hmem⟩
    rw [or_iff_right hinside, ← hnone, Option.eq_none_iff_forall_ne_some]
    refine forall_congr' fun anchor => ⟨fun h hfound => ?_, fun h hfound => absurd hfound h⟩
    obtain ⟨body, hbody, hreaches⟩ := h hfound
    exact hinside ⟨body, hbody, hreaches.inside⟩

end HookAnchor

/-- A component whose body is the markup that it draws. -/
def markupBody : Source :=
  .parsed (Language.snippetPath .tsx) .tsx "const C = () => <A b=\x7b() => 1\x7d />;\n"

/-- A component with markup in the default of a parameter. -/
def markupDefault : Source :=
  .parsed (Language.snippetPath .tsx) .tsx
    "function C(x = <A b=\x7b() => 1\x7d />) \x7b return x; \x7d\n"

namespace HookAnchor

set_option maxRecDepth 100000 in
/-- A body that becomes a block has the hook before the value. -/
theorem reaches_markupBody :
    ∃ i, ModuleIndex.ofSource (Resolver.resolve ⟨.empty, none⟩) markupBody = .ok i ∧
      ∃ s ∈ Site.all markupBody {} (IgnoreList.ofEntries []),
        ∃ answer, (Resolver.project ⟨.empty, none⟩).references i s.expression s.component =
            .ok answer ∧
          ∃ references, answer = .ok references ∧
            ∃ anchor, find? i.source.bytes s.component s.expression references = some anchor ∧
              ∃ body, s.component.node.child? .body = some body ∧ anchor.Reaches s body := by
  have hfound : ∃ i, ModuleIndex.ofSource (Resolver.resolve ⟨.empty, none⟩) markupBody = .ok i ∧
      ∃ s ∈ Site.all markupBody {} (IgnoreList.ofEntries []),
        (∃ body, s.component.node.child? .body = some body ∧
          s.expression.isWithin (s.component.down body) = true) ∧
        ∃ answer, (Resolver.project ⟨.empty, none⟩).references i s.expression s.component =
            .ok answer ∧
          ∃ references, answer = .ok references ∧
            ∃ anchor, find? i.source.bytes s.component s.expression references = some anchor ∧
              anchor.offset = 16 := by
    decide +kernel
  obtain ⟨i, hindex, s, hs, ⟨body, hbody, hwithin⟩, _, hreferences, references, rfl, anchor,
    hanchor, -⟩ := hfound
  have hstands := Site.standsIn_of_mem_all hs
  have hinside := (hstands.expression_isIn.isWithin_iff markupBody.wellFormed
    (hstands.component_isIn.down (Node.mem_of_child? hbody))).1 hwithin
  exact ⟨i, hindex, s, hs, _, hreferences, references, rfl, anchor, hanchor,
    (reaches_iff_inside_or_isRefused markupBody _ i hindex _ _ s hs _ references hreferences).2
      (.inl ⟨body, hbody, hinside⟩) anchor hanchor⟩

set_option maxRecDepth 100000 in
/-- A hook is made in the body for a value in the parameters. -/
theorem not_forall_inside :
    ¬∀ (source : Source) (i : ModuleIndex),
      ModuleIndex.ofSource (Resolver.resolve ⟨.empty, none⟩) source = .ok i →
        ∀ s ∈ Site.all source {} (IgnoreList.ofEntries []),
          ∀ references, (Resolver.project ⟨.empty, none⟩).references i s.expression s.component =
              .ok (.ok references) →
            ∀ anchor, find? i.source.bytes s.component s.expression references = some anchor →
              ∃ body, s.component.node.child? .body = some body ∧
                s.expression.isWithin (s.component.down body) = true := by
  have hdefault : ∃ i, ModuleIndex.ofSource (Resolver.resolve ⟨.empty, none⟩) markupDefault =
        .ok i ∧
      ∃ s ∈ Site.all markupDefault {} (IgnoreList.ofEntries []),
        (∃ body, s.component.node.child? .body = some body ∧
          s.expression.isWithin (s.component.down body) = false) ∧
        ∃ answer, (Resolver.project ⟨.empty, none⟩).references i s.expression s.component =
            .ok answer ∧
          ∃ references, answer = .ok references ∧
            ∃ anchor, find? i.source.bytes s.component s.expression references = some anchor ∧
              anchor.offset = 36 := by
    decide +kernel
  obtain ⟨i, hindex, s, hs, ⟨body, hbody, houtside⟩, _, hreferences, references, rfl, anchor,
    hanchor, -⟩ := hdefault
  intro hall
  obtain ⟨body', hbody', hwithin⟩ := hall _ i hindex s hs references hreferences anchor hanchor
  obtain rfl := Option.some.inj (hbody.symm.trans hbody')
  rw [houtside] at hwithin
  cases hwithin

end HookAnchor

end StableProps

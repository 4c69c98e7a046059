import StableProps.Proofs.Patch.Between
import StableProps.Proofs.Scope.Function

/-!
# Hooks in the scope of their names

A value in the block of a component uses names of the component. Those declared in another statement
of the block are visible from the block: a scope between the block and the value would lie in the
statement of the value, and so would the declaration. They belong to the scope of the function then,
unless they are imported. Hence a hook stands where all names that its value uses can be used, too.
-/

namespace StableProps

namespace ScopeTree

open Event (Visit)

variable {root : Node}

/-- A name that a function declares in another statement of its block than the one with
an expression is visible from the block, and belongs to the function unless it is imported. -/
theorem lookup_body_of_isDeclaredBy (hroot : root.WellFormed)
    (hparts : ∀ n ∈ root.walk, n.partsFit = true) {component : Focus}
    (hcomponent : component.IsIn root) (hfunction : component.node.isFunction = true) {body : Node}
    (hbody : body ∈ component.node.children) (hfield : body.field = some .body)
    (hblock : body.is .statementBlock = true) {expression : Focus}
    (hexpression : expression.IsIn root)
    (hinside : component.down body ∈ Focus.ofAbove expression.above) {σ : Symbol}
    (hσ : σ ∈ (ofModule root).outerUses expression) (hown : σ.isDeclaredBy component = true)
    (helsewhere : σ.kind ≠ .parameter → ∃ c ∈ body.children,
      (component.down body).down c ∈ σ.declaration.outward ∧
        (component.down body).down c ∉ expression.outward) :
    (ofModule root).lookup (component.down body) σ.name .value = some σ ∧
      (σ.scope = component.id ∨ σ.kind = .imported ∧ σ.scope = root.id) := by
  obtain ⟨u, hu, rfl⟩ := Visit.exists_leads_of_isIn hcomponent
  obtain ⟨v, hv, rfl⟩ := Visit.exists_leads_of_isIn hexpression
  obtain ⟨hdeclared, hlookup⟩ := lookupIn_of_mem_outerUses hroot hv hσ
  have hvisible (hbetween : ∀ g ∈ v.place.outward,
      u.place.down body ∈ Focus.ofAbove g.above → σ.scope ≠ g.id) :
      (ofModule root).lookup (u.place.down body) σ.name .value = some σ := by
    refine (opened_between_or_lookup hroot (hu.child hbody) hv hinside hlookup).resolve_left ?_
    rintro ⟨g, hg, hgbody, hscope⟩
    exact hbetween g hg hgbody hscope
  -- Scopes that are opened around the block are not opened inside of it.
  have hstrict {f g : Focus} (hf : f ∈ u.place.outward)
      (hg : u.place.down body ∈ Focus.ofAbove g.above) (hgin : g.IsIn root) : f.id ≠ g.id := by
    intro hid
    obtain rfl := (hcomponent.of_mem_outward hf).eq_of_id_eq hroot hgin hid
    exact Focus.not_mem_ofAbove_of_mem_outward (List.mem_cons_of_mem _ hf) hg
  by_cases hparameter : σ.kind = .parameter
  · obtain ⟨f, hf, hid⟩ := Symbol.isDeclaredBy_iff.1 hown
    have hscope := (hdeclared.scope_eq_of_parameter hparts hparameter hf).trans hid
    refine ⟨hvisible fun g hg hgbody => ?_, .inl hscope⟩
    rw [hscope]
    exact hstrict (Focus.mem_outward_self _) hgbody (hexpression.of_mem_outward hg)
  by_cases himported : σ.kind = .imported
  · have hscope := hdeclared.scope_eq_of_imported himported
    refine ⟨hvisible fun g hg hgbody => ?_, .inr ⟨himported, hscope⟩⟩
    rw [hscope]
    exact hstrict hcomponent.root_mem_outward hgbody (hexpression.of_mem_outward hg)
  · obtain ⟨w, hw, hdeclares⟩ := hdeclared.exists_visit
    obtain ⟨c, hc, hmem, hnot⟩ := helsewhere hparameter
    rw [hdeclares.declaration_eq hparameter himported] at hmem
    have hfound := hvisible fun g hg hgbody =>
      scope_ne_of_statement_ne hroot hw hdeclares hexpression hmem hnot hg hgbody
    refine ⟨hfound, .inl ?_⟩
    refine scope_eq_of_lookup_body hroot hparts hu hfunction hbody hfield hblock hw hdeclares
      himported (Focus.mem_ofAbove_of_mem_outward hmem ?_) hfound
    exact List.mem_cons_of_mem _ List.mem_cons_self

end ScopeTree

namespace HookAnchor

/-- A place in the block of a component at which the hook of a value can stand. -/
structure IsSafe (anchor : HookAnchor) (i : ModuleIndex) (component : Focus) (body : Node)
    (expression : Focus) (references : List Reference) : Prop
    extends anchor.StandsBetween (component.down body) expression references where
  /-- Names of the component belong to the scope of its function, except for imports, which belong
  to that of the module. -/
  scope : ∀ r ∈ Reference.ownNames references, r.symbol.scope = component.id ∨
    r.symbol.kind = .imported ∧ r.symbol.scope = i.source.root.id
  /-- They are visible from the block. -/
  visible : ∀ r ∈ Reference.ownNames references,
    i.scopes.lookup (component.down body) r.symbol.name .value = some r.symbol

/-- In a source whose tree has the shape that a parser gives it, a hook stands at a place that is
safe for its value, if the component has a block. -/
theorem isSafe_of_find?_of_partsFit {source : Source}
    (hparts : ∀ n ∈ source.root.walk, n.partsFit = true)
    {resolve : String → Path → Except Failure (Option Path)} {i : ModuleIndex}
    (hindex : ModuleIndex.ofSource resolve source = .ok i) {options : Options}
    {ignored : IgnoreList} {s : Site} (hs : s ∈ Site.all source options ignored) {body : Node}
    (hbody : s.component.node.child? .body = some body) (hblock : body.is .statementBlock = true)
    (hinside : s.component.down body ∈ s.expression.outward) {p : Project (Except Failure)}
    {references : List Reference}
    (hreferences : p.references i s.expression s.component = .ok (.ok references))
    {anchor : HookAnchor}
    (hanchor : find? i.source.bytes s.component s.expression references = some anchor) :
    anchor.IsSafe i s.component body s.expression references := by
  have hstands := Site.standsIn_of_mem_all hs
  have hindexed := ModuleIndex.isOf_ofSource hindex
  have hroot := source.wellFormed
  have hmem := Node.mem_of_child? hbody
  have hbodyIn := hstands.component_isIn.down hmem
  have hstrict := hstands.body_mem_ofAbove hinside
  have hown {r : Reference} (hr : r ∈ Reference.ownNames references) :=
    Project.own_of_references hindexed hstands.expression_isIn hreferences hr
  rw [find?, hbody] at hanchor
  split at hanchor
  · cases hanchor
  simp only [hblock, if_true] at hanchor
  have hbetween := standsBetween_of_inBlock? hroot hbodyIn (fun r hr => (hown hr).2.2)
    hstands.expression_isIn hstrict hanchor
  have hnames {r : Reference} (hr : r ∈ Reference.ownNames references) :=
    ScopeTree.lookup_body_of_isDeclaredBy hroot hparts hstands.component_isIn
      hstands.component_isFunction hmem (Node.field_of_child? hbody) hblock
      hstands.expression_isIn hstrict (hown hr).1 (hown hr).2.1
      (hbetween.elsewhere hroot hbodyIn hr)
  refine ⟨hbetween, fun r hr => ?_, fun r hr => ?_⟩
  · rw [hindexed.source]
    exact (hnames hr).2
  · rw [hindexed.scopes]
    exact (hnames hr).1

/-- In a component with a block a hook stands at a place that is safe for its value. -/
theorem isSafe_of_find? (path : Path) (language : Language) (text : String)
    (resolve : String → Path → Except Failure (Option Path)) (i : ModuleIndex)
    (hindex : ModuleIndex.ofSource resolve (.parsed path language text) = .ok i)
    (options : Options) (ignored : IgnoreList) (s : Site)
    (hs : s ∈ Site.all (.parsed path language text) options ignored) (body : Node)
    (hbody : s.component.node.child? .body = some body) (hblock : body.is .statementBlock = true)
    (hinside : s.component.down body ∈ s.expression.outward) (p : Project (Except Failure))
    (references : List Reference)
    (hreferences : p.references i s.expression s.component = .ok (.ok references))
    (anchor : HookAnchor)
    (hanchor : find? i.source.bytes s.component s.expression references = some anchor) :
    anchor.IsSafe i s.component body s.expression references :=
  isSafe_of_find?_of_partsFit (partsFit_parse language text) hindex hs hbody hblock hinside
    hreferences hanchor

end HookAnchor

/-- A component that acts before it declares a name that its value uses. -/
def declaredAfterCall : Source :=
  .parsed (Language.snippetPath .tsx) .tsx
    "function C(\x7b x \x7d) \x7b log(); const y = x; return <A b=\x7b[x, y]\x7d />; \x7d\n"

/-- A component with an import in its block. -/
def importInBlock : Source :=
  .parsed (Language.snippetPath .tsx) .tsx
    "function C() \x7b import x from 'y'; return <A b=\x7b[x]\x7d />; \x7d\n"

namespace HookAnchor

set_option maxRecDepth 100000 in
/-- The hook comes behind the declaration, where both names are visible. -/
theorem isSafe_declaredAfterCall :
    ∃ i, ModuleIndex.ofSource (Resolver.resolve ⟨.empty, none⟩) declaredAfterCall = .ok i ∧
      ∃ s ∈ Site.all declaredAfterCall {} (IgnoreList.ofEntries []),
        ∃ body, s.component.node.child? .body = some body ∧
          ∃ answer, (Resolver.project ⟨.empty, none⟩).references i s.expression s.component =
              .ok answer ∧
            ∃ references, answer = .ok references ∧ (Reference.ownNames references).length = 2 ∧
              ∃ anchor, find? i.source.bytes s.component s.expression references = some anchor ∧
                anchor.after = true ∧
                  anchor.IsSafe i s.component body s.expression references := by
  have hfound : ∃ i, ModuleIndex.ofSource (Resolver.resolve ⟨.empty, none⟩) declaredAfterCall =
        .ok i ∧
      ∃ s ∈ Site.all declaredAfterCall {} (IgnoreList.ofEntries []),
        ∃ body, s.component.node.child? .body = some body ∧
          (body.is .statementBlock = true ∧
            s.expression.isWithin (s.component.down body) = true) ∧
          ∃ answer, (Resolver.project ⟨.empty, none⟩).references i s.expression s.component =
              .ok answer ∧
            ∃ references, answer = .ok references ∧ (Reference.ownNames references).length = 2 ∧
              ∃ anchor, find? i.source.bytes s.component s.expression references = some anchor ∧
                anchor.after = true := by
    decide +kernel
  obtain ⟨i, hindex, s, hs, body, hbody, ⟨hblock, hwithin⟩, _, hreferences, references, rfl, htwo,
    anchor, hanchor, hafter⟩ := hfound
  have hstands := Site.standsIn_of_mem_all hs
  have hinside := (hstands.expression_isIn.isWithin_iff declaredAfterCall.wellFormed
    (hstands.component_isIn.down (Node.mem_of_child? hbody))).1 hwithin
  exact ⟨i, hindex, s, hs, body, hbody, _, hreferences, references, rfl, htwo, anchor, hanchor,
    hafter, isSafe_of_find? _ _ _ _ i hindex _ _ s hs body hbody hblock hinside _ references
      hreferences anchor hanchor⟩

set_option maxRecDepth 100000 in
/-- A name that is imported in the block of a component does not belong to the component, though
a hook for it is found. -/
theorem not_forall_scope_eq :
    ¬∀ (source : Source) (i : ModuleIndex),
      ModuleIndex.ofSource (Resolver.resolve ⟨.empty, none⟩) source = .ok i →
        ∀ s ∈ Site.all source {} (IgnoreList.ofEntries []),
          ∀ (body : Node), s.component.node.child? .body = some body →
            body.is .statementBlock = true → s.expression.isWithin (s.component.down body) = true →
          ∀ references, (Resolver.project ⟨.empty, none⟩).references i s.expression s.component =
              .ok (.ok references) →
            ∀ anchor, find? i.source.bytes s.component s.expression references = some anchor →
              ∀ r ∈ Reference.ownNames references, r.symbol.scope = s.component.id := by
  have himport : ∃ i, ModuleIndex.ofSource (Resolver.resolve ⟨.empty, none⟩) importInBlock =
        .ok i ∧
      ∃ s ∈ Site.all importInBlock {} (IgnoreList.ofEntries []),
        ∃ body, s.component.node.child? .body = some body ∧
          (body.is .statementBlock = true ∧
            s.expression.isWithin (s.component.down body) = true) ∧
          ∃ answer, (Resolver.project ⟨.empty, none⟩).references i s.expression s.component =
              .ok answer ∧
            ∃ references, answer = .ok references ∧
              (∃ anchor, find? i.source.bytes s.component s.expression references = some anchor ∧
                anchor.offset = 34) ∧
              ∃ r ∈ Reference.ownNames references, r.symbol.scope ≠ s.component.id := by
    decide +kernel
  obtain ⟨i, hindex, s, hs, body, hbody, ⟨hblock, hwithin⟩, _, hreferences, references, rfl,
    ⟨anchor, hanchor, -⟩, r, hr, hscope⟩ := himport
  intro hall
  exact hscope (hall _ i hindex s hs body hbody hblock hwithin references hreferences anchor
    hanchor r hr)

end HookAnchor

end StableProps

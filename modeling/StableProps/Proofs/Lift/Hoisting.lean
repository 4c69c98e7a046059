import StableProps.Proofs.Lift.References
import StableProps.Proofs.Patch.Imports
import StableProps.Proofs.Site.Place

/-!
# Moving a value to the top of its module

A value may become a constant of the module if no function declares any of the names it uses. Such
a name keeps its meaning at the top exactly if it is not a stray one: a name of a block, loop or
clause outside of all functions, or the own name of a function expression there, which no function
declares and which the top of the module does not see either.
-/

namespace StableProps

open MonadAttach (CanReturn)

/-- A stray name does not belong to the module. -/
theorem Event.DeclaredIn.IsStray.scope_ne {root : Node} (hroot : root.WellFormed) {σ : Symbol}
    (h : IsStray root σ) : σ.scope ≠ root.id := by
  cases h with
  | block g isIn below _ _ scope =>
    rw [scope]
    exact ScopeTree.id_ne_of_above_ne_nil hroot isIn below
  | ownName isIn below _ _ _ _ scope =>
    rw [scope]
    exact ScopeTree.id_ne_of_above_ne_nil hroot isIn below

variable {m : Type → Type} [Monad m] [LawfulMonad m] [MonadAttach m] [LawfulMonadAttach m]

/-- If a value may become a constant, no function declares a name it uses. -/
theorem Site.declaringFunction?_eq_none {source : Source} {p : Project m} {i : ModuleIndex}
    (hi : i.IsOf source) {s : Site} (hs : s.StandsIn source.root) {references : List Reference}
    (hreferences : CanReturn (p.references i s.expression s.component) (.ok references))
    (hstrategy : .constant ∈ Strategy.choose s.category references) {f : Focus}
    (hf : f ∈ s.expression.walk)
    (hname : f.node.isOneOf [.identifier, .shorthandPropertyIdentifier] = true) {σ : Symbol}
    (hresolve : i.scopes.resolve f = some σ)
    (houter : σ.binding.isWithin s.expression = false) (hσ : Event.DeclaredIn source.root σ) :
    σ.declaringFunction? = none := by
  have hroot := source.wellFormed
  -- Of the names bound at the same place one is a reference of the value.
  obtain ⟨τ, hτ, hid⟩ := ScopeTree.exists_mem_outerSymbols hf hname hresolve houter
  rw [hi.scopes] at hτ
  have hτ' := ScopeTree.declaredIn_of_mem_outerSymbols hroot hs.expression_isIn hτ
  have hbinding := hτ'.binding_isIn.eq_of_id_eq hroot hσ.binding_isIn hid
  rw [Project.references, hi.scopes] at hreferences
  obtain ⟨hsymbols, hexternal⟩ := Project.references_of_classifyAll hreferences
  rw [← hsymbols] at hτ
  obtain ⟨r, hr, rfl⟩ := List.mem_map.1 hτ
  rw [← hτ'.declaringFunction?_eq hσ hbinding]
  exact (hexternal r hr).1 (Strategy.constant_mem_choose_iff.1 hstrategy r hr)

/-- A name that a value uses, and that is bound outside of it, means the same at the top of the
module exactly if it is not a stray one. -/
theorem Site.lookup_root_eq_some_iff_not_isStray (source : Source) (o : Options)
    (ignored : IgnoreList) (p : Project m)
    (resolve : String → Path → Except Failure (Option Path)) (i : ModuleIndex)
    (hindex : ModuleIndex.ofSource resolve source = .ok i) (s : Site)
    (hs : s ∈ all source o ignored) (references : List Reference)
    (hreferences : CanReturn (p.references i s.expression s.component) (.ok references))
    (hstrategy : .constant ∈ Strategy.choose s.category references) (f : Focus)
    (hf : f ∈ s.expression.walk)
    (hname : f.node.isOneOf [.identifier, .shorthandPropertyIdentifier] = true) (σ : Symbol)
    (hresolve : i.scopes.resolve f = some σ)
    (houter : σ.binding.isWithin s.expression = false) :
    i.scopes.lookup source.focus f.node.text .value = some σ ↔
      ¬Event.DeclaredIn.IsStray source.root σ := by
  have hroot := source.wellFormed
  have hi := ModuleIndex.isOf_ofSource hindex
  have hstands := standsIn_of_mem_all hs
  have hfin := Focus.isIn_of_mem_walk hstands.expression_isIn hf
  have hlookup : (ScopeTree.ofModule source.root).lookup f f.node.text .value = some σ := by
    rw [hi.scopes] at hresolve
    exact ScopeTree.lookup_of_resolve hroot hstands.expression_isIn hf hresolve houter
  have hσ := (ScopeTree.exists_of_lookup hlookup).2.1
  have hnone := declaringFunction?_eq_none hi hstands hreferences hstrategy hf hname hresolve
    houter hσ
  rw [hi.scopes, Source.focus, ScopeTree.lookup_root_eq_some_iff hroot hfin hlookup]
  constructor
  · intro hscope hstray
    exact hstray.scope_ne hroot hscope
  · intro hstray
    exact (hσ.scope_of_declaringFunction?_eq_none hnone).resolve_right hstray

/-- A component that uses a name of the block around it. -/
def componentInBlock : Source :=
  .parsed (Language.snippetPath .tsx) .tsx
    "\x7b const x = 1; function C() \x7b return <A b=\x7b[x]\x7d />; \x7d \x7d\n"

set_option maxRecDepth 100000 in
private theorem lookup_root_componentInBlock :
    ∃ i, ModuleIndex.ofSource (Resolver.resolve ⟨.empty, none⟩) componentInBlock = .ok i ∧
      ∃ s ∈ Site.all componentInBlock {} (IgnoreList.ofEntries []),
        (∃ found, (Resolver.project ⟨.empty, none⟩).references i s.expression s.component =
            .ok found ∧
          ∃ references, found = .ok references ∧
            .constant ∈ Strategy.choose s.category references) ∧
        ∃ f ∈ s.expression.walk,
          f.node.isOneOf [.identifier, .shorthandPropertyIdentifier] = true ∧
            ∃ σ, i.scopes.resolve f = some σ ∧ σ.binding.isWithin s.expression = false ∧
              (i.scopes.lookup componentInBlock.focus f.node.text .value).isNone = true := by
  decide +kernel

/-- The name of the block is a stray one. -/
theorem Site.exists_isStray_componentInBlock :
    ∃ i, ModuleIndex.ofSource (Resolver.resolve ⟨.empty, none⟩) componentInBlock = .ok i ∧
      ∃ s ∈ all componentInBlock {} (IgnoreList.ofEntries []), ∃ f ∈ s.expression.walk,
        ∃ σ, i.scopes.resolve f = some σ ∧ Event.DeclaredIn.IsStray componentInBlock.root σ := by
  obtain ⟨i, hindex, s, hs, ⟨found, hfound, references, rfl, hstrategy⟩, f, hf, hname, σ, hσ,
    houter, hnone⟩ := lookup_root_componentInBlock
  refine ⟨i, hindex, s, hs, f, hf, σ, hσ, ?_⟩
  have hiff := lookup_root_eq_some_iff_not_isStray componentInBlock {} (IgnoreList.ofEntries [])
    (Resolver.project ⟨.empty, none⟩) (Resolver.resolve ⟨.empty, none⟩) i hindex s hs references
    hfound hstrategy f hf hname σ hσ houter
  by_contra hstray
  rw [hiff.2 hstray] at hnone
  cases hnone

/-- A value may become a constant though a name it uses means nothing at the top of the module. -/
theorem Site.not_forall_lookup_root :
    ¬∀ (source : Source) (i : ModuleIndex),
      ModuleIndex.ofSource (Resolver.resolve ⟨.empty, none⟩) source = .ok i →
        ∀ s ∈ all source {} (IgnoreList.ofEntries []), ∀ references,
          (Resolver.project ⟨.empty, none⟩).references i s.expression s.component =
              .ok (.ok references) →
            .constant ∈ Strategy.choose s.category references → ∀ f ∈ s.expression.walk,
              f.node.isOneOf [.identifier, .shorthandPropertyIdentifier] = true →
                ∀ σ, i.scopes.resolve f = some σ → σ.binding.isWithin s.expression = false →
                  i.scopes.lookup source.focus f.node.text .value = some σ := by
  intro hall
  obtain ⟨i, hindex, s, hs, ⟨found, hfound, references, rfl, hstrategy⟩, f, hf, hname, σ, hσ,
    houter, hnone⟩ := lookup_root_componentInBlock
  have hsome := hall _ i hindex s hs references hfound hstrategy f hf hname σ hσ houter
  rw [hsome] at hnone
  cases hnone

end StableProps

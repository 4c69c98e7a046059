import StableProps.Proofs.Import.Additions
import StableProps.Proofs.Lift.Pass

/-!
# Names that fixes import

The suggestions of a pass import types and hooks. The name of a type is asked for only if the module
binds it nowhere at its top, so a name that is bound already can only be that of a hook. Suggestions
that are taken together add one name twice only if they want it from two declarations, or from one
both as its default and in its braces.
-/

namespace StableProps

open MonadAttach (CanReturn)

/-- The names that a module binds at its top, as values or as types. -/
def Source.topNames (s : Source) : List String :=
  (ScopeTree.ofModule s.root).moduleValues.map (·.1) ++
    (ScopeTree.ofModule s.root).moduleTypes.map (·.1)

namespace Suggestion

/-- The import declarations that suggestions need. -/
def entriesOf (chosen : List Suggestion) : List ImportEntry := chosen.flatMap (·.parts.imports)

/-- What suggestions add to import declarations, the first addition for every place. -/
def additionsOf (chosen : List Suggestion) : List Addition :=
  distinctBy Addition.slot ((entriesOf chosen).flatMap ImportEntry.additions)

/-- Suggestions add names to the file that differ from each other and from all names at its top. -/
structure AddsNewNames (s : Source) (chosen : List Suggestion) : Prop where
  distinct : (Patch.newNames (entriesOf chosen)).Nodup
  isNew : ∀ name ∈ Patch.newNames (entriesOf chosen), name ∉ s.topNames

instance (s : Source) (chosen : List Suggestion) : Decidable (AddsNewNames s chosen) :=
  decidable_of_iff ((Patch.newNames (entriesOf chosen)).Nodup ∧
    ∀ name ∈ Patch.newNames (entriesOf chosen), name ∉ s.topNames)
    ⟨fun h => ⟨h.1, h.2⟩, fun h => ⟨h.1, h.2⟩⟩

/-- A suggestion adds the name of the hook that it uses. -/
def AddsHook (x : Suggestion) (h : Hook) : Prop :=
  x.keeping = .hook h ∧ ∃ e ∈ x.parts.imports, h.name ∈ e.added.map (·.localName)

end Suggestion

namespace Analysis

variable {m : Type → Type} {a : Analysis m}

theorem Imports.derived {keeping : Keeping} {entries : List ImportEntry}
    (h : a.Imports keeping entries) {e : ImportEntry} (he : e ∈ entries) :
    ∃ host asked, (∀ i, host = some i → i ∈ a.planner.main.imports) ∧
      (∀ r ∈ asked, r.localName ∉ a.planner.main.names ∨
        ∃ h, keeping = .hook h ∧ r.localName = h.name ∧ r.kind = .named) ∧
      ImportEntry.Derived a.planner.main.imports host asked e := by
  obtain ⟨plan, rfl, hplan⟩ := h
  obtain ⟨host, asked, hhost, hasked, hderived⟩ := ImportEntry.derived_of_mem_ofPlan he
  exact ⟨host, asked, hhost, fun r hr => hplan r (hasked hr), hderived⟩

/-- A name that is bound at the top of the module is added only for a hook, and in braces. -/
theorem Imports.hook_of_mem_names {keeping : Keeping} {entries : List ImportEntry}
    (h : a.Imports keeping entries) {e : ImportEntry} (he : e ∈ entries) {b : Addition}
    (hb : b ∈ e.additions) (hbound : b.name ∈ a.planner.main.names) :
    ∃ h, keeping = .hook h ∧ b.name = h.name ∧ b.name ∈ e.added.map (·.localName) := by
  obtain ⟨host, asked, -, hasked, hderived⟩ := h.derived he
  obtain ⟨-, hb⟩ := ImportEntry.mem_additions.1 hb
  split at hb
  · obtain ⟨r, hr, hkind, hname⟩ := hderived.exists_request.1 b.name hb
    rcases hasked r hr with hfree | ⟨-, -, -, hnamed⟩
    · exact absurd (hname ▸ hbound) hfree
    · rw [hkind] at hnamed
      cases hnamed
  · obtain ⟨r, hr, -, hname⟩ := hderived.exists_request.2 b.name hb
    rcases hasked r hr with hfree | ⟨hook, hkeeping, hhook, -⟩
    · exact absurd (hname ▸ hbound) hfree
    · exact ⟨hook, hkeeping, hname.symm.trans hhook, hb⟩

end Analysis

namespace Workspace

open Suggestion

variable {m : Type → Type} [Monad m] [LawfulMonad m] [MonadExceptOf Failure m] [MonadAttach m]
variable [LawfulMonadAttach m] [LawfulFailure m]

/-- Suggestions of a pass add new names exactly if no name of a hook that they add is bound already
at the top of the module, and no name is added at two places. -/
theorem addsNewNames_iff (w : Workspace m) (o : Options) (s : Source) {findings : List Finding}
    (h : CanReturn (w.findings o s) findings) (chosen : List Suggestion)
    (hchosen : ∀ x ∈ chosen, ∃ f ∈ findings, x ∈ f.suggestions) :
    AddsNewNames s chosen ↔
      (∀ x ∈ chosen, ∀ hook, x.AddsHook hook → hook.name ∉ s.topNames) ∧
        ∀ b ∈ additionsOf chosen, ∀ c ∈ additionsOf chosen, b.name = c.name → b = c := by
  obtain ⟨a, rfl, rfl, hindex, hfindings⟩ := exists_analysis h
  have himports : ∀ x ∈ chosen, a.Imports x.keeping x.parts.imports := by
    intro x hx
    obtain ⟨f, hf, hx⟩ := hchosen x hx
    obtain ⟨site, -, sites, hreports⟩ := Analysis.exists_site_of_mem_findings hindex hfindings hf
    exact (hreports.suggestions x hx).drafts.imports
  have hnames : a.planner.main.names = a.source.topNames := by
    rw [ModuleIndex.names, hindex.scopes, Source.topNames]
  have hfits : Patch.Fits (entriesOf chosen) := by
    refine ImportEntry.fits_of_derived hindex.range_injective fun e he => ?_
    obtain ⟨x, hx, he⟩ := List.mem_flatMap.1 he
    obtain ⟨host, asked, hhost, -, hderived⟩ := (himports x hx).derived he
    exact ⟨host, asked, hhost, hderived⟩
  have hdistinct := Patch.nodup_newNames_iff hfits
  constructor
  · intro hnew
    refine ⟨?_, hdistinct.1 hnew.distinct⟩
    rintro x hx hook ⟨-, e, he, hname⟩
    -- What stands in braces is never left out when entries are merged.
    refine hnew.isNew hook.name ((Patch.mem_newNames_iff hfits).2 ?_)
    refine ⟨⟨Patch.mergeKey e, false, hook.name⟩, Patch.mem_distinctBy_slot.2 ?_, rfl⟩
    exact ⟨e, List.mem_flatMap.2 ⟨x, hx, he⟩, rfl, hname⟩
  · rintro ⟨hhook, hplaces⟩
    refine ⟨hdistinct.2 hplaces, fun name hname hbound => ?_⟩
    obtain ⟨b, hb, rfl⟩ := (Patch.mem_newNames_iff hfits).1 hname
    obtain ⟨e, he, hb⟩ := List.mem_flatMap.1 (mem_of_mem_distinctBy hb)
    obtain ⟨x, hx, he⟩ := List.mem_flatMap.1 he
    rw [← hnames] at hbound
    obtain ⟨hook, hkeeping, heq, hadded⟩ := (himports x hx).hook_of_mem_names he hb hbound
    rw [heq] at hadded hbound
    rw [hnames] at hbound
    exact hhook x hx hook ⟨hkeeping, e, he, hadded⟩ hbound

/-- A module that binds the name of the hook that its component needs. -/
def boundHook : Source :=
  .parsed (Language.snippetPath .tsx) .tsx
    ("const useCallback = 1;\n" ++
      "function C(\x7b x \x7d) \x7b return <A b=\x7b() => x\x7d />; \x7d\n")

set_option maxRecDepth 100000 in
private theorem findings_boundHook :
    ∃ findings, (fresh ⟨.empty, none⟩).findings {} boundHook = .ok findings ∧
      ∃ f ∈ findings, ∃ x ∈ f.suggestions,
        (x.keeping = .hook .callback ∧
          ∃ e ∈ x.parts.imports, Hook.callback.name ∈ e.added.map (·.localName)) ∧
        Hook.callback.name ∈ boundHook.topNames ∧
        (Patch.assemble boundHook [x.parts]).isOk = true ∧ ¬AddsNewNames boundHook [x] := by
  decide +kernel

/-- The hook is imported though its name is bound. -/
theorem addsHook_boundHook :
    ∃ findings, (fresh ⟨.empty, none⟩).findings {} boundHook = .ok findings ∧
      ∃ f ∈ findings, ∃ x ∈ f.suggestions, x.AddsHook .callback ∧ ¬AddsNewNames boundHook [x] := by
  obtain ⟨findings, hfindings, f, hf, x, hx, hadds, hbound, -⟩ := findings_boundHook
  refine ⟨findings, hfindings, f, hf, x, hx, hadds, fun hnew => ?_⟩
  have hchosen : ∀ y ∈ [x], ∃ f ∈ findings, y ∈ f.suggestions := by
    intro y hy
    rw [List.mem_singleton.1 hy]
    exact ⟨f, hf, hx⟩
  have hhook := ((addsNewNames_iff (fresh ⟨.empty, none⟩) {} boundHook hfindings [x] hchosen).1
    hnew).1
  exact hhook x List.mem_cons_self .callback hadds hbound

/-- Suggestions that can be assembled may add a name that is bound already. -/
theorem not_forall_addsNewNames :
    ¬∀ (s : Source) (findings : List Finding),
      (fresh ⟨.empty, none⟩).findings {} s = .ok findings →
        ∀ chosen : List Suggestion, (∀ x ∈ chosen, ∃ f ∈ findings, x ∈ f.suggestions) →
          (Patch.assemble s (chosen.map (·.parts))).isOk = true → AddsNewNames s chosen := by
  intro hall
  obtain ⟨findings, hfindings, f, hf, x, hx, -, -, hok, hnot⟩ := findings_boundHook
  refine hnot (hall boundHook findings hfindings [x] ?_ hok)
  intro y hy
  rw [List.mem_singleton.1 hy]
  exact ⟨f, hf, hx⟩

end Workspace

end StableProps

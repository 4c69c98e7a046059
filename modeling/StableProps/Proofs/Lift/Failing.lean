import StableProps.Proofs.Lift.Pass
import StableProps.Proofs.Module.Export

/-!
# Why a pass fails

A pass fails because of a look-up in the project, or because the parts of one draft cannot be put
together. All drafts made until then fit their sites.
-/

namespace StableProps

namespace Analysis

variable {a : Analysis (Except Failure)} {sites : List Site} {s : Site} {pass : Pass}

/-! ## Drafts -/

/-- A question to the planner fails only by a look-up, if the project does. -/
private theorem failsByLookup_ask (h : a.planner.project.FailsByLookups) {α : Type}
    (look : Planner Query → Query α) : FailsByLookup (a.planner.ask look) :=
  h.run _

/-- The annotation of a binding fails only by a look-up. -/
private theorem failsByLookup_bindingType (h : a.planner.project.FailsByLookups) (s : Site)
    (callback : Bool) : FailsByLookup (a.bindingType s callback) := by
  rw [bindingType]
  split
  · rw [Planner.bindingType]
    refine FailsByLookup.bind ?_ ?_
    · -- A failed look-up for the declared type counts as none.
      generalize (a.planner.ask fun q => q.project.propType q.main s.tag s.attributeName) = x
      cases x <;> exact .ok _
    · intro declared
      split
      · exact failsByLookup_ask h _
      · exact .ok _
  · exact .ok _

/-- A hook is drafted unless a look-up fails. -/
private theorem failsByLookup_hookDraft (h : a.planner.project.FailsByLookups)
    (references : List Reference) : FailsByLookup (a.hookDraft s references pass) := by
  rw [hookDraft]
  split
  · exact .ok _
  · refine (failsByLookup_bindingType h s _).bind fun typed => ?_
    exact (failsByLookup_ask h _).bind fun plan => .ok _

/-- A constant is drafted unless a look-up fails. -/
private theorem failsByLookup_newConstant (h : a.planner.project.FailsByLookups) :
    FailsByLookup (a.newConstant s pass) := by
  rw [newConstant]
  split
  · exact .ok _
  · exact (failsByLookup_bindingType h s _).bind fun typed => .ok _

/-- A suggestion is drafted unless a look-up fails, whatever its strategy. -/
private theorem failsByLookup_draft (h : a.planner.project.FailsByLookups)
    (references : List Reference) (strategy : Strategy) :
    FailsByLookup (a.draft s references pass strategy) := by
  cases strategy with
  | hook => exact failsByLookup_hookDraft h references
  | constant =>
    refine FailsByLookup.bind ?_ fun _ => .ok _
    rw [constantDraft]
    split
    · exact .ok _
    · exact (failsByLookup_newConstant h).bind fun _ => .ok _

/-! ## Passes -/

/-- A failure at one of several sites: a look-up fails, or the parts of a draft for the site cannot
be put together. -/
def FailsAt (a : Analysis (Except Failure)) (sites : List Site) (f : Failure) : Prop :=
  f.IsOfLookup ∨
    ∃ s ∈ sites, ∃ met d, a.Drafts met s d ∧ Patch.assemble a.source [d.parts] = .error f

/-- A failure at some of the sites is a failure at more of them. -/
theorem FailsAt.mono {sites' : List Site} {f : Failure} (h : a.FailsAt sites f)
    (hsub : sites ⊆ sites') : a.FailsAt sites' f := by
  rcases h with hlookup | ⟨s, hs, hfails⟩
  · exact .inl hlookup
  · exact .inr ⟨s, hsub hs, hfails⟩

/-- Suggestions for a site fail by a look-up or by a draft for that site. -/
private theorem failsAt_of_suggestions (hproject : a.planner.project.FailsByLookups)
    (hstands : s.StandsIn a.source.root) (hs : s ∈ sites) {references : List Reference}
    (hrefs : ∀ r ∈ references, r.symbol.declaration.IsIn a.source.root)
    {strategies : List Strategy} (hpass : a.Remembers sites pass) {f : Failure}
    (h : a.suggestions s references strategies pass = .error f) : a.FailsAt [s] f := by
  induction strategies generalizing pass with
  | nil => cases h
  | cons strategy rest ih =>
    rw [suggestions] at h
    rcases bind_eq_error.1 h with h | ⟨⟨draft, pass₁⟩, hdraft, h⟩
    · exact .inl (failsByLookup_draft hproject references strategy f h)
    · obtain ⟨hfits, hpass₁⟩ := (draftStep_of_draft hdraft).drafts hstands hs hrefs hpass
      rcases bind_eq_error.1 h with h | ⟨first, -, h⟩
      · obtain ⟨d, hd, h⟩ := exists_of_mapM_eq_error h
        rw [suggestion, lift_eq] at h
        rcases bind_eq_error.1 h with h | ⟨edits, -, h⟩
        · exact .inr ⟨s, List.mem_cons_self, sites, d, hfits d (Option.mem_toList.1 hd), h⟩
        · cases h
      · rcases bind_eq_error.1 h with h | ⟨⟨more, pass₂⟩, -, h⟩
        · exact ih hpass₁ h
        · cases h

/-- The analysis of a site fails by a look-up or by a draft for that site. -/
private theorem failsAt_of_analyzeSite (hproject : a.planner.project.FailsByLookups)
    (hindex : a.planner.main.IsOf a.source) (hstands : s.StandsIn a.source.root) (hs : s ∈ sites)
    (hpass : a.Remembers sites pass) {f : Failure} (h : a.analyzeSite s pass = .error f) :
    a.FailsAt [s] f := by
  rw [analyzeSite] at h
  rcases bind_eq_error.1 h with h | ⟨references, hreferences, h⟩
  · exact .inl (failsByLookup_ask hproject _ f h)
  · cases references with
    | error reason => cases h
    | ok references =>
      have hrefs := declaration_isIn_of_references hindex hstands hreferences
      rcases bind_eq_error.1 h with h | ⟨found, -, h⟩
      · exact failsAt_of_suggestions hproject hstands hs hrefs hpass h
      · cases h

/-- The analysis of several sites fails by a look-up or by a draft for one of them. -/
private theorem failsAt_of_analyzeSites (hproject : a.planner.project.FailsByLookups)
    (hindex : a.planner.main.IsOf a.source) {rest : List Site}
    (hstands : ∀ s ∈ rest, s.StandsIn a.source.root) (hpass : a.Remembers sites pass)
    {f : Failure} (h : a.analyzeSites rest pass = .error f) : a.FailsAt rest f := by
  induction rest generalizing sites pass with
  | nil => cases h
  | cons s rest ih =>
    rw [analyzeSites] at h
    have hpass' : a.Remembers (sites ++ [s]) pass := hpass.mono (List.subset_append_left _ _)
    have hs : s ∈ sites ++ [s] := List.mem_append_right _ List.mem_cons_self
    rcases bind_eq_error.1 h with h | ⟨⟨found, pass₁⟩, hfound, h⟩
    · refine (failsAt_of_analyzeSite hproject hindex (hstands s List.mem_cons_self) hs hpass'
        h).mono ?_
      exact List.cons_subset_cons s (List.nil_subset rest)
    · obtain ⟨-, hpass₁⟩ := (siteStep_of_analyzeSite hfound).reports hindex
        (hstands s List.mem_cons_self) hs hpass'
      rcases bind_eq_error.1 h with h | ⟨more, -, h⟩
      · exact (ih (fun t ht => hstands t (List.mem_cons_of_mem _ ht)) hpass₁ h).mono
          (List.subset_cons_self s rest)
      · cases h

/-- A pass fails at one of its sites. -/
theorem failsAt_of_findings (hproject : a.planner.project.FailsByLookups)
    (hindex : a.planner.main.IsOf a.source) {f : Failure} (h : a.findings = .error f) :
    a.FailsAt a.allSites f := by
  have hempty : a.Remembers [] {} := by simp [Remembers]
  exact failsAt_of_analyzeSites hproject hindex (fun _ hs => Site.standsIn_of_mem_all hs) hempty h

end Analysis

/-- An analysis among files fails because of a look-up, or at a site of the source. -/
theorem exists_failsAt_of_analyze {t : FileTree} {o : Options} {s : Source} {f : Failure}
    (h : analyze t o s = .error f) :
    f.IsOfLookup ∨ ∃ a : Analysis (Except Failure), a.source = s ∧ a.options = o ∧
      a.planner.main.IsOf s ∧ a.FailsAt a.allSites f := by
  rw [analyze] at h
  split at h
  next hmarkup =>
    rcases bind_eq_error.1 h with h | ⟨w, hw, h⟩
    · rw [Workspace.forFile, Resolver.forFile] at h
      rcases bind_eq_error.1 h with h | ⟨resolver, -, h⟩
      · rcases bind_eq_error.1 h with h | ⟨config, -, h⟩
        · exact .inl (Config.failsByLookup_forFile t s.path f h)
        · cases h
      · cases h
    · obtain ⟨resolver, -, hw⟩ := bind_eq_ok.1 hw
      obtain rfl := Except.ok.inj hw
      rw [Workspace.analyze, if_pos hmarkup, Workspace.findings] at h
      rcases bind_eq_error.1 h with h | ⟨planner, hplanner, hfindings⟩
      · rw [Workspace.planner, Analysis.lift_eq] at h
        rcases bind_eq_error.1 h with h | ⟨main, -, h⟩
        · exact .inl (ModuleIndex.failsByLookup_ofSource resolver s f h)
        · cases h
      · rw [Workspace.planner, Analysis.lift_eq] at hplanner
        obtain ⟨main, hmain, hplanner⟩ := bind_eq_ok.1 hplanner
        obtain rfl := Except.ok.inj hplanner
        have hindex := ModuleIndex.isOf_ofSource hmain
        have hproject := (Project.FailsByLookups.project resolver).withModule main
        obtain rfl := hindex.source
        exact .inr ⟨_, rfl, rfl, hindex, Analysis.failsAt_of_findings hproject hindex hfindings⟩
  · cases h

end StableProps

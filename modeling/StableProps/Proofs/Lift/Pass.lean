import StableProps.Lift.Fix
import StableProps.Proofs.Import.Plan
import StableProps.Proofs.Lift.References
import StableProps.Proofs.Lift.Steps
import StableProps.Proofs.Patch.Anchor
import StableProps.Proofs.Patch.Imports
import StableProps.Proofs.Site.FreshName

/-!
# What a pass reports

Every finding of a pass belongs to a site, and every suggestion replaces the value of that site by
a name. What else it changes is inserted at an end of a statement and added to imports of the file.
The name is new at the site, or belongs to a constant: one that the module has, or one that was made
for the same text at this site or at an earlier one, and was new there.
-/

namespace StableProps

open MonadAttach (CanReturn)

namespace Analysis

section

variable {m : Type → Type}

/-- The sites of a pass, in the order in which it meets them. -/
def allSites (a : Analysis m) : List Site :=
  Site.all a.source a.options (IgnoreList.ofEntries a.options.ignored)

/-- A name is made for a site: it is chosen to differ from all names that can be seen there, and
from others. -/
def Makes (a : Analysis m) (s : Site) (strategy : Strategy) (name : String) : Prop :=
  ∃ others, name = FreshName.choose (a.visibleNames s ++ others) (s.canonicalName strategy)

/-- Where the name of a suggestion comes from, the sites met so far being given. -/
inductive Names (a : Analysis m) (sites : List Site) (s : Site) : Keeping → String → Prop where
  /-- The name of a hook is made for its site. -/
  | hook {h : Hook} {name : String} (makes : a.Makes s .hook name) :
      Names a sites s (.hook h) name
  /-- The module has a constant with the text of the value. -/
  | existing {name : String}
      (constant : a.source.constants.lookup s.expression.node.text = some name) :
      Names a sites s .constant name
  /-- A constant was made for a site with the same text. -/
  | made {name : String} (t : Site) (mem : t ∈ sites)
      (text : t.expression.node.text = s.expression.node.text) (makes : a.Makes t .constant name) :
      Names a sites s .constant name

/-- An offset at which a suggestion for a site may insert something. -/
def IsInsertionOffset (a : Analysis m) (s : Site) (x : Nat) : Prop :=
  s.component.IsBodyOffset x ∨ a.source.IsModuleOffset x

/-- Import declarations are those of a plan, which asks for names that are free, and for the name of
a hook where one is used. -/
def Imports (a : Analysis m) (keeping : Keeping) (entries : List ImportEntry) : Prop :=
  ∃ plan, entries = a.entries plan ∧ ∀ r ∈ plan.requests,
    r.localName ∉ a.planner.main.names ∨
      ∃ h, keeping = .hook h ∧ r.localName = h.name ∧ r.kind = .named

variable [Monad m] [MonadExceptOf Failure m] [MonadAttach m]

/-- What a draft for a site declares and imports. A type that was found for the new binding is
written at its declaration, and the imports are those that it needs. -/
inductive Writes (a : Analysis m) (sites : List Site) (s : Site) (d : Draft) : Prop where
  /-- A hook is called at a place in the component, and imported. -/
  | hook (anchor : HookAnchor) (references : List Reference) (expression : String)
      (dependencies : List String) (b : BindingType) (plan : ImportPlan)
      (keeping : d.keeping = .hook s.hook)
      (found : HookAnchor.find? a.source.bytes s.component s.expression references = some anchor)
      (typed : CanReturn (a.bindingType s (s.hook == .callback)) b)
      (planned : CanReturn (a.planner.ask (·.planHook {} s.hook.name)) plan)
      (insertions : d.parts.insertions =
        [anchor.insertion (Declaration.hook d.name s.hook b.text expression dependencies)])
      (imports : d.parts.imports = a.entries (plan.merge b.plan))
  /-- A constant that the module has is used again. -/
  | existing (keeping : d.keeping = .constant) (insertions : d.parts.insertions = [])
      (imports : d.parts.imports = [])
  /-- A constant is declared as it was for a site with the same text. -/
  | made (t : Site) (mem : t ∈ sites) (text : t.expression.node.text = s.expression.node.text)
      (expression : String) (b : BindingType) (keeping : d.keeping = .constant)
      (typed : CanReturn (a.bindingType t false) b)
      (insertions : d.parts.insertions = [a.source.constantInsertion
        (Declaration.constant d.name b.text expression) a.options.position])
      (imports : d.parts.imports = a.entries b.plan)

/-- What a draft for a site is made of. -/
structure Drafts (a : Analysis m) (sites : List Site) (s : Site) (d : Draft) : Prop where
  /-- It replaces the value of the site by its name, and nothing else. -/
  replaces : d.parts.replacements = [replacement s d.name]
  /-- It inserts at ends of statements. -/
  inserts : ∀ i ∈ d.parts.insertions, ∀ p ∈ i.offsets, a.IsInsertionOffset s p
  /-- It adds to import declarations of the file, or makes new ones. -/
  imports : a.Imports d.keeping d.parts.imports
  names : a.Names sites s d.keeping d.name
  writes : a.Writes sites s d

/-- What a suggestion for a site is made of. -/
structure Suggests (a : Analysis m) (sites : List Site) (s : Site) (x : Suggestion) : Prop where
  drafts : a.Drafts sites s x.toDraft
  /-- Its edits are its parts put together. -/
  assembled : Patch.assemble a.source [x.parts] = .ok x.edits

/-- What a finding at a site is made of. -/
structure Reports (a : Analysis m) (sites : List Site) (s : Site) (f : Finding) : Prop where
  start : f.start = s.expression.node.start
  stop : f.stop = s.expression.node.stop
  suggestions : ∀ x ∈ f.suggestions, a.Suggests sites s x

/-- A constant that was made for a text at one of the sites met so far. -/
structure Made (a : Analysis m) (sites : List Site) (text : String) (c : NewConstant) : Prop where
  site : ∃ t ∈ sites, t.expression.node.text = text ∧ a.Makes t .constant c.name
  inserts : ∀ p ∈ c.insertion.offsets, a.source.IsModuleOffset p
  imports : a.Imports .constant c.imports
  writes : ∃ t ∈ sites, t.expression.node.text = text ∧ ∃ expression b,
    CanReturn (a.bindingType t false) b ∧
      c.insertion = a.source.constantInsertion (Declaration.constant c.name b.text expression)
        a.options.position ∧
      c.imports = a.entries b.plan

/-- All constants that a pass remembers were made for their texts at sites met so far. -/
def Remembers (a : Analysis m) (sites : List Site) (pass : Pass) : Prop :=
  ∀ x ∈ pass.constants, a.Made sites x.1 x.2

end

section

variable {m : Type → Type} {a : Analysis m} {s : Site} {pass : Pass}

private theorem makes_newName (strategy : Strategy) : a.Makes s strategy
    (a.newName s strategy pass).1 :=
  ⟨pass.names, rfl⟩

/-- A new name differs from all names that can be seen at its site. -/
theorem Makes.not_mem_visibleNames {strategy : Strategy} {name : String}
    (h : a.Makes s strategy name) : name ∉ a.visibleNames s := by
  obtain ⟨others, rfl⟩ := h
  intro hmem
  exact FreshName.choose_not_mem _ _ (List.mem_append_left _ hmem)

theorem Imports.belongs {keeping : Keeping} {entries : List ImportEntry}
    (h : a.Imports keeping entries) : ∀ e ∈ entries, e.Belongs a.planner.main.imports := by
  obtain ⟨plan, rfl, -⟩ := h
  intro e he
  exact ImportEntry.belongs_of_mem_ofPlan he

end

section

variable {m : Type → Type} [Monad m] [MonadExceptOf Failure m]
variable [MonadAttach m] {a : Analysis m} {sites : List Site} {s : Site} {pass : Pass}

theorem Remembers.mono {sites' : List Site} (h : a.Remembers sites pass) (hsub : sites ⊆ sites') :
    a.Remembers sites' pass := by
  intro x hx
  obtain ⟨⟨t, ht, htext⟩, hinserts, himports, u, hu, hwrites⟩ := h x hx
  exact ⟨⟨t, hsub ht, htext⟩, hinserts, himports, u, hsub hu, hwrites⟩

/-- The draft of a constant fits every site with the text that the constant was made for. -/
theorem Made.drafts {c : NewConstant} (h : a.Made sites s.expression.node.text c) :
    a.Drafts sites s (newUse s c) := by
  obtain ⟨⟨t, ht, htext, hmakes⟩, hinserts, himports, u, hu, hutext, expression, b, htyped,
    hinsertion, hentries⟩ := h
  refine ⟨rfl, ?_, himports, .made t ht htext hmakes, .made u hu hutext expression b rfl htyped
    (congrArg ([·]) hinsertion) hentries⟩
  intro i hi p hp
  obtain rfl := List.mem_singleton.1 hi
  exact .inr (hinserts p hp)

variable [LawfulMonad m] [LawfulMonadAttach m]

/-- The type of a new binding asks for free names only. -/
theorem isFree_of_bindingType {callback : Bool} {b : BindingType}
    (h : CanReturn (a.bindingType s callback) b) :
    ∀ r ∈ b.plan.requests, r.localName ∉ a.planner.main.names := by
  rw [bindingType] at h
  split at h
  · exact Planner.isFree_of_bindingType h
  · obtain rfl := eq_of_canReturn_pure h
    simp

/-- A constant with a new name for a site is made for the text of its value. -/
theorem made_constantFor (hs : s ∈ sites) {b : BindingType}
    (hb : CanReturn (a.bindingType s false) b) :
    a.Made sites s.expression.node.text
      (a.constantFor s (a.newName s .constant pass).1 b) where
  site := ⟨s, hs, rfl, makes_newName .constant⟩
  inserts _ hp := Source.isModuleOffset_constantInsertion _ _ hp
  imports := ⟨b.plan, rfl, fun r hr => .inl (isFree_of_bindingType hb r hr)⟩
  writes := ⟨s, hs, rfl, _, b, hb, rfl, rfl⟩

/-- The draft of a hook fits its site. -/
theorem drafts_hookCall (hs : s.StandsIn a.source.root) {references : List Reference}
    (hrefs : ∀ r ∈ references, r.symbol.declaration.IsIn a.source.root) {anchor : HookAnchor}
    (hanchor : HookAnchor.find? a.source.bytes s.component s.expression references = some anchor)
    {b : BindingType} (hb : CanReturn (a.bindingType s (s.hook == .callback)) b)
    {plan : ImportPlan} (hplan : CanReturn (a.planner.ask (·.planHook {} s.hook.name)) plan) :
    a.Drafts sites s
      (a.hookCall s references anchor (a.newName s .hook pass).1 b plan) where
  replaces := rfl
  inserts := by
    intro i hi p hp
    obtain rfl := List.mem_singleton.1 hi
    exact .inl (HookAnchor.isBodyOffset_of_find? a.source.wellFormed hs.component_isIn
      hs.expression_isIn hrefs hanchor _ p hp)
  imports := by
    refine ⟨plan.merge b.plan, rfl, ?_⟩
    intro r hr
    rcases ImportPlan.mem_requests_merge hr with hr | hr
    · have hhook := Planner.requests_of_planHook (Query.canReturn_of_run hplan) r hr
      exact .inr ⟨s.hook, rfl, hhook⟩
    · exact .inl (isFree_of_bindingType hb r hr)
  names := .hook (makes_newName .hook)
  writes := .hook anchor references _ _ b plan rfl hanchor hb hplan rfl rfl

/-- The draft of a strategy fits its site. -/
theorem DraftStep.drafts {references : List Reference} {strategy : Strategy}
    {found : Option Draft} {pass' : Pass} (h : a.DraftStep s references pass strategy found pass')
    (hstands : s.StandsIn a.source.root) (hs : s ∈ sites)
    (hrefs : ∀ r ∈ references, r.symbol.declaration.IsIn a.source.root)
    (hpass : a.Remembers sites pass) :
    (∀ d, found = some d → a.Drafts sites s d) ∧ a.Remembers sites pass' := by
  cases h with
  | unplaced unfound => exact ⟨nofun, hpass⟩
  | called hanchor typed planned =>
    refine ⟨?_, hpass⟩
    rintro d ⟨⟩
    exact drafts_hookCall hstands hrefs hanchor typed planned
  | existing known =>
    refine ⟨?_, hpass⟩
    rintro d ⟨⟩
    exact ⟨rfl, by simp [existingUse], ⟨{}, rfl, by simp⟩, .existing known, .existing rfl rfl rfl⟩
  | @remembered c unknown known =>
    obtain ⟨l₁, l₂, heq, -⟩ := List.lookup_eq_some_iff.1 known
    refine ⟨?_, hpass⟩
    rintro d ⟨⟩
    exact (hpass (s.expression.node.text, c) (by simp [heq])).drafts
  | made unknown unmet typed =>
    have hmade : a.Made sites s.expression.node.text
        (a.constantFor s (a.newName s .constant pass).1 _) := made_constantFor hs typed
    constructor
    · rintro d ⟨⟩
      exact hmade.drafts
    · intro x hx
      rcases List.mem_cons.1 hx with rfl | hx
      · exact hmade
      · exact hpass x hx

omit [MonadExceptOf Failure m] in
/-- The references of a site are declared by the module. -/
theorem declaration_isIn_of_references (hindex : a.planner.main.IsOf a.source)
    (hs : s.StandsIn a.source.root) {references : List Reference}
    (h : CanReturn (a.planner.ask fun p => p.project.references p.main s.expression s.component)
      (.ok references)) : ∀ r ∈ references, r.symbol.declaration.IsIn a.source.root := by
  intro r hr
  have hreferences : CanReturn ((Project.asking a.planner.project.bound).classifyAll a.planner.main
      s.component (a.planner.main.scopes.outerSymbols s.expression)) (.ok references) :=
    Query.canReturn_of_run h
  rw [hindex.scopes] at hreferences
  have hmem := List.mem_map_of_mem (f := Reference.symbol) hr
  rw [(Project.references_of_classifyAll hreferences).1] at hmem
  exact (ScopeTree.declaredIn_of_mem_outerSymbols a.source.wellFormed hs.expression_isIn
    hmem).declaration_isIn

variable [LawfulFailure m]

theorem eq_ok_of_canReturn_lift {α : Type} {x : Except Failure α} {b : α}
    (h : CanReturn (lift x : m α) b) : x = .ok b := by
  cases x with
  | ok c => rw [eq_of_canReturn_pure h]
  | error f => exact absurd h (LawfulFailure.not_canReturn_throw f b)

/-- All suggestions for a site fit it, whatever strategies are tried. -/
theorem DraftSteps.suggests {references : List Reference} {strategies : List Strategy}
    {found : List Suggestion} {pass' : Pass}
    (h : a.DraftSteps s references strategies pass found pass')
    (hstands : s.StandsIn a.source.root) (hs : s ∈ sites)
    (hrefs : ∀ r ∈ references, r.symbol.declaration.IsIn a.source.root)
    (hpass : a.Remembers sites pass) :
    (∀ x ∈ found, a.Suggests sites s x) ∧ a.Remembers sites pass' := by
  induction h with
  | nil => exact ⟨by simp, hpass⟩
  | @cons strategy rest pass pass₁ pass₂ d first more step drafts edited steps ih =>
    obtain ⟨hfits, hpass₁⟩ := step.drafts hstands hs hrefs hpass
    obtain ⟨hrest, hpass₂⟩ := ih hpass₁
    refine ⟨?_, hpass₂⟩
    intro x hx
    rcases List.mem_append.1 hx with hx | hx
    · have hmem : x.toDraft ∈ d.toList := drafts ▸ List.mem_map_of_mem hx
      exact ⟨hfits _ (Option.mem_toList.1 hmem), eq_ok_of_canReturn_lift (edited x hx)⟩
    · exact hrest x hx

/-- The finding at a site belongs to it. -/
theorem SiteStep.reports {found : Option Finding} {pass' : Pass}
    (h : a.SiteStep s pass found pass') (hindex : a.planner.main.IsOf a.source)
    (hstands : s.StandsIn a.source.root) (hs : s ∈ sites) (hpass : a.Remembers sites pass) :
    (∀ f, found = some f → a.Reports sites s f) ∧ a.Remembers sites pass' := by
  cases h with
  | passed blocked => exact ⟨nofun, hpass⟩
  | reported kept steps =>
    have hrefs := declaration_isIn_of_references hindex hstands kept
    obtain ⟨hfits, hpass'⟩ := steps.suggests hstands hs hrefs hpass
    refine ⟨?_, hpass'⟩
    rintro f ⟨⟩
    exact ⟨rfl, rfl, hfits⟩

/-- Several sites give findings in their order, each of which belongs to a site. The sites met
before the first of them being given, those met until a finding are the ones in front of its own. -/
theorem SiteSteps.reports {rest : List Site} {findings : List Finding} {last : Pass}
    (h : a.SiteSteps rest pass findings last) (hindex : a.planner.main.IsOf a.source)
    (hstands : ∀ s ∈ rest, s.StandsIn a.source.root) (hpass : a.Remembers sites pass) :
    (findings.map Finding.start).Sublist (rest.map (·.expression.node.start)) ∧
      ∀ f ∈ findings, ∃ before s after, rest = before ++ s :: after ∧
        a.Reports (sites ++ before ++ [s]) s f := by
  induction h generalizing sites with
  | nil => exact ⟨.slnil, by simp⟩
  | @cons s rest pass pass₁ last found more step steps ih =>
    have hpass' : a.Remembers (sites ++ [s]) pass := hpass.mono (List.subset_append_left _ _)
    obtain ⟨hfirst, hpass₁⟩ := step.reports hindex (hstands s List.mem_cons_self)
      (List.mem_append_right _ List.mem_cons_self) hpass'
    obtain ⟨hsub, hrest⟩ := ih (fun t ht => hstands t (List.mem_cons_of_mem _ ht)) hpass₁
    constructor
    · cases found with
      | none => exact hsub.cons _
      | some f =>
        rw [Option.toList_some, List.singleton_append, List.map_cons, List.map_cons,
          (hfirst f rfl).start]
        exact hsub.cons_cons _
    · intro f hf
      rcases List.mem_append.1 hf with hf | hf
      · refine ⟨[], s, rest, rfl, ?_⟩
        rw [List.append_nil]
        exact hfirst f (Option.mem_toList.1 hf)
      · obtain ⟨before, t, after, rfl, hreports⟩ := hrest f hf
        refine ⟨s :: before, t, after, rfl, ?_⟩
        simpa using hreports

/-- The findings of a pass stand in the order of its sites, and each of them belongs to a site. -/
theorem reports_of_findings (hindex : a.planner.main.IsOf a.source) {findings : List Finding}
    (h : CanReturn a.findings findings) :
    (findings.map Finding.start).Sublist (a.allSites.map (·.expression.node.start)) ∧
      ∀ f ∈ findings, ∃ before s after, a.allSites = before ++ s :: after ∧
        a.Reports (before ++ [s]) s f := by
  have hempty : a.Remembers [] {} := by simp [Remembers]
  obtain ⟨last, hsteps⟩ := exists_siteSteps_of_analyzeSites h
  exact hsteps.reports hindex (fun _ hs => Site.standsIn_of_mem_all hs) hempty

theorem exists_site_of_mem_findings (hindex : a.planner.main.IsOf a.source)
    {findings : List Finding} (h : CanReturn a.findings findings) {f : Finding}
    (hf : f ∈ findings) : ∃ s ∈ a.allSites, ∃ sites, a.Reports sites s f := by
  obtain ⟨before, s, after, hsites, hreports⟩ := (reports_of_findings hindex h).2 f hf
  refine ⟨s, ?_, before ++ [s], hreports⟩
  rw [hsites]
  exact List.mem_append_right _ List.mem_cons_self

end

end Analysis

namespace Workspace

variable {m : Type → Type} [Monad m] [LawfulMonad m] [MonadExceptOf Failure m] [MonadAttach m]
variable [LawfulMonadAttach m] [LawfulFailure m]

/-- The planner for a source works on an index of it. -/
theorem isOf_of_planner {w : Workspace m} {s : Source} {p : Planner m}
    (h : CanReturn (w.planner s) p) : p.main.IsOf s := by
  rw [Workspace.planner] at h
  obtain ⟨main, hmain, h⟩ := canReturn_bind h
  obtain ⟨-, -, h⟩ := canReturn_bind h
  obtain rfl := eq_of_canReturn_pure h
  exact ModuleIndex.isOf_ofSource (Analysis.eq_ok_of_canReturn_lift hmain)

/-- The findings of a source in a workspace are those of a pass over an index of the source. -/
theorem exists_analysis {w : Workspace m} {o : Options} {s : Source} {findings : List Finding}
    (h : CanReturn (w.findings o s) findings) :
    ∃ a : Analysis m, a.source = s ∧ a.options = o ∧ a.planner.main.IsOf s ∧
      CanReturn a.findings findings := by
  rw [Workspace.findings] at h
  obtain ⟨planner, hplanner, h⟩ := canReturn_bind h
  have hindex := isOf_of_planner hplanner
  exact ⟨⟨planner, o⟩, hindex.source, rfl, hindex, h⟩

end Workspace

end StableProps

import StableProps.Proofs.Lift.NewImports
import StableProps.Proofs.Scope.Enclosing

/-!
# Names that a pass gives

A pass reserves names one after the other, for hooks and for constants, in the order of its sites.
All that it remembers of a constant is under a name that it gave for the text. So its names differ
from each other, and each is free at its site: neither found by a look-up from there, nor bound at
the top of the module.
-/

namespace StableProps

open MonadAttach (CanReturn)

/-- A name that a pass gives, with the site and the strategy that it is for. -/
structure GivenName where
  site : Site
  strategy : Strategy
  name : String

/-- What is asked for when a name is given. -/
def GivenName.request (s : Source) (g : GivenName) : FreshName.Request where
  base := g.site.canonicalName g.strategy
  visible := (ScopeTree.ofModule s.root).visibleNames g.site.expression ++ s.topNames

/-- The name of a suggestion was given for its site, or for one with the same text if it is that of
a constant, unless the module has a constant of that text. -/
inductive IsGiven (source : Source) (given : List GivenName) (s : Site) :
    Keeping → String → Prop where
  /-- The name of a hook is given for its site. -/
  | hook {h : Hook} {name : String} (mem : ⟨s, .hook, name⟩ ∈ given) :
      IsGiven source given s (.hook h) name
  /-- The module has a constant with the text of the value. -/
  | existing {name : String}
      (constant : source.constants.lookup s.expression.node.text = some name) :
      IsGiven source given s .constant name
  /-- The name of a new constant is given for a site with the text. -/
  | constant {name : String} (t : Site) (mem : ⟨t, .constant, name⟩ ∈ given)
      (text : t.expression.node.text = s.expression.node.text) :
      IsGiven source given s .constant name

/-- A name that was given stays given. -/
theorem IsGiven.mono {source : Source} {given given' : List GivenName} {s : Site} {k : Keeping}
    {name : String} (h : IsGiven source given s k name) (hsub : given ⊆ given') :
    IsGiven source given' s k name := by
  cases h with
  | hook mem => exact .hook (hsub mem)
  | existing constant => exact .existing constant
  | constant t mem text => exact .constant t (hsub mem) text

/-- A hook is tried before a constant. -/
theorem Strategy.choose_sublist (c : Category) (references : List Reference) :
    (Strategy.choose c references).Sublist [.hook, .constant] := by
  rw [Strategy.choose]
  split_ifs <;> decide

namespace Analysis

section

variable {m : Type → Type}

/-- A pass has given names in this order, and nothing else. -/
structure Gave (a : Analysis m) (given : List GivenName) (pass : Pass) : Prop where
  reserved : FreshName.reserveAll [] (given.map (GivenName.request a.source)) =
    (given.map (·.name), pass.names)
  constants : ∀ x ∈ pass.constants, ∃ t,
    ⟨t, .constant, x.2.name⟩ ∈ given ∧ t.expression.node.text = x.1

/-- The names that are given for a site while strategies are tried, and the drafts they are for. -/
structure GivesFor (s : Site) (strategies : List Strategy) (new : List GivenName)
    (drafts : List Draft) : Prop where
  order : (new.map fun g => (g.site, g.strategy)).Sublist (strategies.map (s, ·))
  used : ∀ g ∈ new, g.site = s ∧ ∃ d ∈ drafts, d.keeping.strategy = g.strategy ∧ d.name = g.name

/-- The names that are given while sites are looked at, some being given before, and the findings
there. -/
structure GivesAt (source : Source) (given new : List GivenName) (sites : List Site)
    (findings : List Finding) : Prop where
  order : (new.map fun g => (g.site, g.strategy)).Sublist
    (sites.flatMap fun s => [(s, .hook), (s, .constant)])
  used : ∀ g ∈ new, ∃ f ∈ findings, f.start = g.site.expression.node.start ∧
    ∃ x ∈ f.suggestions, x.keeping.strategy = g.strategy ∧ x.name = g.name
  named : ∀ f ∈ findings, ∃ s ∈ sites, f.start = s.expression.node.start ∧
    ∀ x ∈ f.suggestions, IsGiven source (given ++ new) s x.keeping x.name

variable {a : Analysis m} {s : Site} {given : List GivenName} {pass pass' : Pass}

private theorem gave_empty (a : Analysis m) : a.Gave [] {} := ⟨rfl, by simp⟩

theorem GivesFor.nil (s : Site) (strategies : List Strategy) (drafts : List Draft) :
    GivesFor s strategies [] drafts := ⟨List.nil_sublist _, by simp⟩

/-- The names for strategies in a row are given in a row. -/
theorem GivesFor.append {strategies strategies' : List Strategy} {new new' : List GivenName}
    {drafts drafts' : List Draft} (h : GivesFor s strategies new drafts)
    (h' : GivesFor s strategies' new' drafts') :
    GivesFor s (strategies ++ strategies') (new ++ new') (drafts ++ drafts') := by
  constructor
  · rw [List.map_append, List.map_append]
    exact h.order.append h'.order
  · intro g hg
    rcases List.mem_append.1 hg with hg | hg
    · obtain ⟨hsite, d, hd, hnamed⟩ := h.used g hg
      exact ⟨hsite, d, List.mem_append_left _ hd, hnamed⟩
    · obtain ⟨hsite, d, hd, hnamed⟩ := h'.used g hg
      exact ⟨hsite, d, List.mem_append_right _ hd, hnamed⟩

/-- The names for sites in a row are given in a row. -/
theorem GivesAt.append {source : Source} {new new' : List GivenName} {rest : List Site}
    {findings findings' : List Finding} (h : GivesAt source given new [s] findings)
    (h' : GivesAt source (given ++ new) new' rest findings') :
    GivesAt source given (new ++ new') (s :: rest) (findings ++ findings') := by
  constructor
  · rw [List.map_append, ← List.singleton_append, List.flatMap_append]
    exact h.order.append h'.order
  · intro g hg
    rcases List.mem_append.1 hg with hg | hg
    · obtain ⟨f, hf, hused⟩ := h.used g hg
      exact ⟨f, List.mem_append_left _ hf, hused⟩
    · obtain ⟨f, hf, hused⟩ := h'.used g hg
      exact ⟨f, List.mem_append_right _ hf, hused⟩
  · rw [← List.append_assoc]
    intro f hf
    rcases List.mem_append.1 hf with hf | hf
    · obtain ⟨t, ht, hstart, hnamed⟩ := h.named f hf
      obtain rfl := List.mem_singleton.1 ht
      exact ⟨t, List.mem_cons_self, hstart,
        fun x hx => (hnamed x hx).mono (List.subset_append_left _ _)⟩
    · obtain ⟨t, ht, hnamed⟩ := h'.named f hf
      exact ⟨t, List.mem_cons_of_mem _ ht, hnamed⟩

/-- All that a site can see and all that is bound at the top of the module is to be avoided. -/
theorem visibleNames_eq (hindex : a.planner.main.IsOf a.source) (s : Site) :
    a.visibleNames s =
      (ScopeTree.ofModule a.source.root).visibleNames s.expression ++ a.source.topNames := by
  rw [visibleNames, ModuleIndex.names, hindex.scopes, Source.topNames]

/-- A new name is added to those given. -/
theorem Gave.newName (hindex : a.planner.main.IsOf a.source) (h : a.Gave given pass)
    (strategy : Strategy) :
    a.Gave (given ++ [⟨s, strategy, (a.newName s strategy pass).1⟩])
      (a.newName s strategy pass).2 := by
  constructor
  · rw [List.map_append, FreshName.reserveAll_append, h.reserved, List.map_append]
    simp only [List.map_cons, List.map_nil, FreshName.reserveAll, GivenName.request,
      Analysis.newName, visibleNames_eq hindex]
  · intro x hx
    obtain ⟨t, ht, htext⟩ := h.constants x hx
    exact ⟨t, List.mem_append_left _ ht, htext⟩

end

section

variable {m : Type → Type} [Monad m] [MonadExceptOf Failure m] [MonadAttach m]
variable {a : Analysis m} {s : Site} {given : List GivenName} {pass pass' : Pass}

/-- A strategy gives one name for its site or none, and the name of its draft is given. -/
theorem DraftStep.gave {references : List Reference} {strategy : Strategy} {found : Option Draft}
    (h : a.DraftStep s references pass strategy found pass')
    (hindex : a.planner.main.IsOf a.source) (hgave : a.Gave given pass) :
    ∃ new, a.Gave (given ++ new) pass' ∧ GivesFor s [strategy] new found.toList ∧
      ∀ d, found = some d → IsGiven a.source (given ++ new) s d.keeping d.name := by
  have hnew (strategy : Strategy) : ⟨s, strategy, (a.newName s strategy pass).1⟩ ∈
      given ++ [⟨s, strategy, (a.newName s strategy pass).1⟩] :=
    List.mem_append_right _ List.mem_cons_self
  have hfor (k : Keeping) {d : Draft} (hkeeping : d.keeping = k)
      (hname : d.name = (a.newName s k.strategy pass).1) :
      GivesFor s [k.strategy] [⟨s, k.strategy, (a.newName s k.strategy pass).1⟩] [d] := by
    refine ⟨List.Sublist.refl _, ?_⟩
    intro g hg
    obtain rfl := List.mem_singleton.1 hg
    exact ⟨rfl, d, List.mem_singleton_self d, congrArg Keeping.strategy hkeeping, hname⟩
  cases h with
  | unplaced unfound => exact ⟨[], by rwa [List.append_nil], .nil s _ _, nofun⟩
  | called found typed planned =>
    refine ⟨_, hgave.newName hindex .hook, hfor (.hook s.hook) rfl rfl, ?_⟩
    rintro d ⟨⟩
    exact .hook (hnew .hook)
  | existing known =>
    refine ⟨[], by rwa [List.append_nil], .nil s _ _, ?_⟩
    rintro d ⟨⟩
    exact .existing known
  | @remembered c unknown known =>
    obtain ⟨l₁, l₂, heq, -⟩ := List.lookup_eq_some_iff.1 known
    obtain ⟨t, ht, htext⟩ := hgave.constants (s.expression.node.text, c) (by simp [heq])
    refine ⟨[], by rwa [List.append_nil], .nil s _ _, ?_⟩
    rintro d ⟨⟩
    exact .constant t (List.mem_append_left _ ht) htext
  | made unknown unmet typed =>
    have hnext := hgave.newName (s := s) hindex .constant
    refine ⟨_, ⟨hnext.reserved, ?_⟩, hfor .constant rfl rfl, ?_⟩
    · intro x hx
      rcases List.mem_cons.1 hx with rfl | hx
      · exact ⟨s, hnew .constant, rfl⟩
      · exact hnext.constants x hx
    · rintro d ⟨⟩
      exact .constant s (hnew .constant) rfl

/-- The suggestions for a site use all names that were given for it meanwhile. -/
theorem DraftSteps.gave {references : List Reference} {strategies : List Strategy}
    {found : List Suggestion} (h : a.DraftSteps s references strategies pass found pass')
    (hindex : a.planner.main.IsOf a.source) (hgave : a.Gave given pass) :
    ∃ new, a.Gave (given ++ new) pass' ∧
      GivesFor s strategies new (found.map Suggestion.toDraft) ∧
      ∀ x ∈ found, IsGiven a.source (given ++ new) s x.keeping x.name := by
  induction h generalizing given with
  | nil => exact ⟨[], by rwa [List.append_nil], .nil s _ _, by simp⟩
  | @cons strategy rest pass pass₁ pass₂ d first more step drafts edited steps ih =>
    obtain ⟨new₁, hgave₁, hnew₁, hgiven₁⟩ := step.gave hindex hgave
    obtain ⟨new₂, hgave₂, hnew₂, hgiven₂⟩ := ih hgave₁
    refine ⟨new₁ ++ new₂, by rwa [← List.append_assoc], ?_, ?_⟩
    · rw [List.map_append, drafts]
      exact hnew₁.append hnew₂
    · rw [← List.append_assoc]
      intro x hx
      rcases List.mem_append.1 hx with hx | hx
      · have hmem : x.toDraft ∈ d.toList := drafts ▸ List.mem_map_of_mem hx
        exact (hgiven₁ _ (Option.mem_toList.1 hmem)).mono (List.subset_append_left _ _)
      · exact hgiven₂ x hx

/-- A site gives its names to what it suggests, one for each strategy at most. -/
theorem SiteStep.gave {found : Option Finding} (h : a.SiteStep s pass found pass')
    (hindex : a.planner.main.IsOf a.source) (hgave : a.Gave given pass) :
    ∃ new, a.Gave (given ++ new) pass' ∧ GivesAt a.source given new [s] found.toList := by
  cases h with
  | passed blocked =>
    exact ⟨[], by rwa [List.append_nil], List.nil_sublist _, by simp, by simp⟩
  | @reported references list pass' kept steps =>
    obtain ⟨new, hgave', hnew, hgiven⟩ := steps.gave hindex hgave
    refine ⟨new, hgave', ?_, ?_, ?_⟩
    · exact hnew.order.trans ((Strategy.choose_sublist s.category references).map _)
    · intro g hg
      obtain ⟨rfl, d, hd, hstrategy, hname⟩ := hnew.used g hg
      obtain ⟨x, hx, rfl⟩ := List.mem_map.1 hd
      exact ⟨_, List.mem_singleton_self _, rfl, x, hx, hstrategy, hname⟩
    · intro f hf
      obtain rfl := List.mem_singleton.1 hf
      exact ⟨s, List.mem_singleton_self s, rfl, hgiven⟩

/-- The names of all sites are reserved one after the other. -/
theorem SiteSteps.gave {sites : List Site} {findings : List Finding} {last : Pass}
    (h : a.SiteSteps sites pass findings last) (hindex : a.planner.main.IsOf a.source)
    (hgave : a.Gave given pass) :
    ∃ new, a.Gave (given ++ new) last ∧ GivesAt a.source given new sites findings := by
  induction h generalizing given with
  | nil => exact ⟨[], by rwa [List.append_nil], List.nil_sublist _, by simp, by simp⟩
  | cons step steps ih =>
    obtain ⟨new, hgave', hfirst⟩ := step.gave hindex hgave
    obtain ⟨new', hlast, hrest⟩ := ih hgave'
    exact ⟨new ++ new', by rwa [← List.append_assoc], hfirst.append hrest⟩

end

end Analysis

/-- The names that a pass over a source gives, in the order in which it gives them. -/
structure PassGives (source : Source) (o : Options) (findings : List Finding)
    (given : List GivenName) : Prop where
  /-- They are reserved one after the other, none being reserved at first. -/
  reserved : (FreshName.reserveAll [] (given.map (GivenName.request source))).1 =
    given.map (·.name)
  /-- Each site has one for a hook, one for a constant, both, or none. -/
  order : (given.map fun g => (g.site, g.strategy)).Sublist
    ((Site.all source o (IgnoreList.ofEntries o.ignored)).flatMap fun s =>
      [(s, .hook), (s, .constant)])
  /-- Each is suggested at its site. -/
  used : ∀ g ∈ given, ∃ f ∈ findings, f.start = g.site.expression.node.start ∧
    ∃ x ∈ f.suggestions, x.keeping.strategy = g.strategy ∧ x.name = g.name
  /-- No other name is suggested but that of a constant which the module has. -/
  named : ∀ f ∈ findings, ∃ s ∈ Site.all source o (IgnoreList.ofEntries o.ignored),
    f.start = s.expression.node.start ∧
      ∀ x ∈ f.suggestions, IsGiven source given s x.keeping x.name

variable {m : Type → Type} [Monad m] [LawfulMonad m] [MonadExceptOf Failure m] [MonadAttach m]
variable [LawfulMonadAttach m]

/-- All names of a pass are given one after the other. -/
private theorem Analysis.exists_passGives {a : Analysis m} (hindex : a.planner.main.IsOf a.source)
    {findings : List Finding} (h : CanReturn a.findings findings) :
    ∃ given, PassGives a.source a.options findings given := by
  obtain ⟨last, hsteps⟩ := exists_siteSteps_of_analyzeSites h
  obtain ⟨given, hgave, hgives⟩ := hsteps.gave hindex (gave_empty a)
  exact ⟨given, congrArg Prod.fst hgave.reserved, hgives.order, hgives.used, hgives.named⟩

variable [LawfulFailure m]

/-- A name is reserved as it is if it is neither visible nor reserved, and otherwise with the least
number behind it that makes it so; names that are reserved one after the other differ from each
other and from those reserved before. Hence the names that a pass gives differ from each other; none
of them can be seen from its site, and none is bound at the top of the module. -/
theorem Workspace.exists_names_given (w : Workspace m) (o : Options) (source : Source)
    (findings : List Finding) (h : CanReturn (w.findings o source) findings) :
    (∀ reserved base visible, ∃ name,
      FreshName.reserve reserved base visible = (name, name :: reserved) ∧
        (FreshName.IsFree reserved visible base ∧ name = base ∨
          ¬FreshName.IsFree reserved visible base ∧ ∃ k,
            IsLeast {i | 1 ≤ i ∧ FreshName.IsFree reserved visible (base ++ toString i)} k ∧
              name = base ++ toString k)) ∧
    (∀ reserved requests, (FreshName.reserveAll reserved requests).1.Nodup ∧
      ∀ name ∈ (FreshName.reserveAll reserved requests).1, name ∉ reserved) ∧
    ∃ given, PassGives source o findings given ∧ (given.map (·.name)).Nodup ∧
      ∀ g ∈ given, g.name ∉ source.topNames ∧ ∀ space,
        (ScopeTree.ofModule source.root).lookup g.site.expression g.name space = none := by
  refine ⟨?_, FreshName.nodup_reserveAll, ?_⟩
  · intro reserved base visible
    refine ⟨_, rfl, ?_⟩
    by_cases hfree : FreshName.IsFree reserved visible base
    · exact .inl ⟨hfree, FreshName.reserve_of_isFree reserved base visible hfree⟩
    · exact .inr ⟨hfree, FreshName.exists_reserve_of_not_isFree reserved base visible hfree⟩
  · obtain ⟨a, rfl, rfl, hindex, hfindings⟩ := exists_analysis h
    obtain ⟨given, hgives⟩ := Analysis.exists_passGives hindex hfindings
    refine ⟨given, hgives, ?_, ?_⟩
    · rw [← hgives.reserved]
      exact (FreshName.nodup_reserveAll _ _).1
    · intro g hg
      have hunseen := FreshName.not_mem_visible_of_reserveAll hgives.reserved g hg
      rw [GivenName.request, List.mem_append, not_or, ScopeTree.mem_visibleNames_iff,
        not_or] at hunseen
      refine ⟨hunseen.2, ?_⟩
      intro space
      cases space with
      | value => exact Option.not_isSome_iff_eq_none.1 hunseen.1.1
      | type => exact Option.not_isSome_iff_eq_none.1 hunseen.1.2

/-- A module in which the name of a constant is bound already. -/
def takenConstantName : Source :=
  .parsed (Language.snippetPath .tsx) .tsx
    ("const AB = 1;\n" ++
      "function C() \x7b return <A b=\x7b() => 1\x7d>\x7b<A b=\x7b[2]\x7d />\x7d</A>; \x7d\n")

set_option maxRecDepth 100000 in
private theorem findings_takenConstantName :
    ∃ findings, (Workspace.fresh ⟨.empty, none⟩).findings {} takenConstantName = .ok findings ∧
      findings.map (fun f => f.suggestions.map (·.name)) = [["aB", "AB1"], ["AB2"]] := by
  decide +kernel

/-- The name of the constant is numbered, differently for the two values. -/
theorem Workspace.exists_names_given_takenConstantName :
    ∃ findings, (fresh ⟨.empty, none⟩).findings {} takenConstantName = .ok findings ∧
      findings.map (fun f => f.suggestions.map (·.name)) = [["aB", "AB1"], ["AB2"]] ∧
        ∃ given, PassGives takenConstantName {} findings given ∧ (given.map (·.name)).Nodup ∧
          ∀ g ∈ given, g.name ∉ takenConstantName.topNames ∧ ∀ space,
            (ScopeTree.ofModule takenConstantName.root).lookup g.site.expression g.name space =
              none := by
  obtain ⟨findings, hfindings, hnames⟩ := findings_takenConstantName
  exact ⟨findings, hfindings, hnames, (exists_names_given (fresh ⟨.empty, none⟩) {}
    takenConstantName findings hfindings).2.2⟩

end StableProps

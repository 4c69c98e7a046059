import StableProps.Proofs.Lift.Failing
import StableProps.Proofs.Module.Cache

/-!
# Fixing with a cache

A fix keeps one project through all of its passes, with all modules it has read. Stage by stage an
analysis in such a project has the outcome of an analysis that reads the files afresh, and so has a
fix as a whole: the module under analysis is the only one that differs between passes, and each pass
makes it known again.
-/

namespace StableProps

namespace Analysis

private theorem simulates_lift {r : Resolver} {free : Path → Prop} {α : Type}
    (x : Except Failure α) : Simulates r free (lift x) (lift x) := by
  cases x with
  | ok a => exact .ret a
  | error f => exact .fail f

private theorem source_mk {m : Type → Type} (p : Project m) (main : ModuleIndex)
    (o : Options) : source ⟨⟨p, main⟩, o⟩ = main.source := rfl

section

variable {r : Resolver} {free : Path → Prop} {p : Project Cached} {q : Project (Except Failure)}
variable (h : p.Simulates r free q) (main : ModuleIndex) (o : Options)

include h

/-- A question to the planner has the same answer with a cache. -/
private theorem simulates_ask {α : Type} (look : Planner Query → Query α) :
    Simulates r free (Planner.ask ⟨p, main⟩ look)
      (Planner.ask ⟨q, main⟩ look) := by
  rw [Planner.ask, Planner.ask, ← h.bound]
  exact h.run _

/-- The annotation of a binding is the same with a cache. -/
private theorem simulates_bindingType (s : Site) (callback : Bool) :
    Simulates r free (bindingType ⟨⟨p, main⟩, o⟩ s callback)
      (bindingType ⟨⟨q, main⟩, o⟩ s callback) := by
  rw [bindingType, bindingType]
  split
  · refine Simulates.bind ?_ fun declared => ?_
    · exact .tryCatch (simulates_ask h main _) fun _ => .ret _
    · split
      · exact simulates_ask h main _
      · exact .ret _
  · exact .ret _

/-- A constant is drafted alike with a cache. -/
private theorem simulates_newConstant (s : Site) (pass : Pass) :
    Simulates r free (newConstant ⟨⟨p, main⟩, o⟩ s pass)
      (newConstant ⟨⟨q, main⟩, o⟩ s pass) := by
  rw [newConstant, newConstant]
  split
  · exact .ret _
  · exact (simulates_bindingType h main o s false).bind fun typed => .ret _

/-- A hook is drafted alike with a cache. -/
private theorem simulates_hookDraft (s : Site) (references : List Reference) (pass : Pass) :
    Simulates r free (hookDraft ⟨⟨p, main⟩, o⟩ s references pass)
      (hookDraft ⟨⟨q, main⟩, o⟩ s references pass) := by
  rw [hookDraft, hookDraft, source_mk, source_mk]
  split
  · exact .ret _
  · refine (simulates_bindingType h main o s _).bind fun typed => ?_
    exact (simulates_ask h main _).bind fun plan => .ret _

/-- A suggestion is drafted alike with a cache, whatever its strategy. -/
private theorem simulates_draft (s : Site) (references : List Reference) (pass : Pass)
    (strategy : Strategy) :
    Simulates r free (draft ⟨⟨p, main⟩, o⟩ s references pass strategy)
      (draft ⟨⟨q, main⟩, o⟩ s references pass strategy) := by
  cases strategy with
  | hook => exact simulates_hookDraft h main o s references pass
  | constant =>
    refine Simulates.bind ?_ fun _ => .ret _
    rw [constantDraft, constantDraft, source_mk, source_mk]
    split
    · exact .ret _
    · exact (simulates_newConstant h main o s pass).bind fun _ => .ret _

/-- The suggestions for a site are the same with a cache. -/
private theorem simulates_suggestions (s : Site) (references : List Reference)
    (strategies : List Strategy) (pass : Pass) :
    Simulates r free (suggestions ⟨⟨p, main⟩, o⟩ s references strategies pass)
      (suggestions ⟨⟨q, main⟩, o⟩ s references strategies pass) := by
  induction strategies generalizing pass with
  | nil => exact .ret _
  | cons strategy rest ih =>
    rw [suggestions, suggestions]
    refine (simulates_draft h main o s references pass strategy).bind fun found => ?_
    refine (Simulates.mapM (fun d => ?_) _).bind fun first => ?_
    · exact (simulates_lift _).bind fun edits => .ret _
    · exact (ih _).bind fun more => .ret _

/-- A site is analysed alike with a cache. -/
private theorem simulates_analyzeSite (s : Site) (pass : Pass) :
    Simulates r free (analyzeSite ⟨⟨p, main⟩, o⟩ s pass)
      (analyzeSite ⟨⟨q, main⟩, o⟩ s pass) := by
  rw [analyzeSite, analyzeSite]
  refine (simulates_ask h main _).bind fun references => ?_
  cases references with
  | error reason => exact .ret _
  | ok references =>
    exact (simulates_suggestions h main o s references _ pass).bind fun _ => .ret _

/-- A pass finds the same. -/
theorem simulates_findings :
    Simulates r free (findings ⟨⟨p, main⟩, o⟩)
      (findings ⟨⟨q, main⟩, o⟩) := by
  have hsites (sites : List Site) (pass : Pass) :
      Simulates r free (analyzeSites ⟨⟨p, main⟩, o⟩ sites pass)
        (analyzeSites ⟨⟨q, main⟩, o⟩ sites pass) := by
    induction sites generalizing pass with
    | nil => exact .ret _
    | cons s rest ih =>
      refine (simulates_analyzeSite h main o s pass).bind fun found => ?_
      exact (ih _).bind fun more => .ret _
  exact hsites _ {}

end

end Analysis

namespace Workspace

variable (t : FileTree) (config : Option Config)

/-- A workspace for a file is a fresh one with the settings for that file. -/
theorem eq_fresh_of_forFile {t : FileTree} {path : Path} {w : Workspace (Except Failure)}
    (h : forFile t path = .ok w) : ∃ config, Config.forFile t path = .ok config ∧
      w = fresh ⟨t, config⟩ := by
  obtain ⟨resolver, hresolver, hw⟩ := bind_eq_ok.1 h
  obtain ⟨config, hconfig, hresolver⟩ := bind_eq_ok.1 hresolver
  obtain rfl := Except.ok.inj hresolver
  exact ⟨config, hconfig, (Except.ok.inj hw).symm⟩

/-- A module that is made known may differ from its file, or is what is read from it. -/
theorem simulates_remember {free : Path → Prop} (cache : ModuleCache) {i : ModuleIndex}
    (h : free i.path ∨ Resolver.loadModule ⟨t, config⟩ i.path = .ok (some i)) :
    Simulates ⟨t, config⟩ free ((cached t config cache).remember i) (pure ()) := by
  intro known hknown
  refine ⟨(i.path, some i) :: known, rfl, ?_⟩
  intro path answer hne hanswer
  rcases List.mem_cons.1 hanswer with heq | hanswer
  · obtain ⟨rfl, rfl⟩ := Prod.mk.inj heq
    exact h.resolve_left hne
  · exact hknown path answer hne hanswer

/-- The findings of a source are the same with a cache, if the source may differ from its file or is
what is read from it. -/
theorem simulates_findings {free : Path → Prop} {cache : ModuleCache}
    (hcache : Resolver.outdatedTexts t cache = []) (o : Options) (s : Source)
    (hfree : ∀ path, free path → path = s.path)
    (hmain : ∀ main, ModuleIndex.ofSource (Resolver.resolve ⟨t, config⟩) s = .ok main →
      free s.path ∨ Resolver.loadModule ⟨t, config⟩ s.path = .ok (some main)) :
    Simulates ⟨t, config⟩ free ((cached t config cache).findings o s)
      ((fresh ⟨t, config⟩).findings o s) := by
  have hplanner : Simulates ⟨t, config⟩ free
      (Analysis.lift (ModuleIndex.ofSource (Resolver.resolve ⟨t, config⟩) s))
      (Analysis.lift (ModuleIndex.ofSource (Resolver.resolve ⟨t, config⟩) s)) :=
    Analysis.simulates_lift _
  rw [findings, findings, planner, planner, bind_assoc, bind_assoc]
  refine hplanner.bind_of_eq fun main hread => ?_
  rw [Analysis.lift_eq] at hread
  have hpath : main.path = s.path := congrArg Source.path (ModuleIndex.isOf_ofSource hread).source
  rw [bind_assoc, bind_assoc]
  refine (simulates_remember t config cache (hpath ▸ hmain main hread)).bind fun _ => ?_
  rw [pure_bind, pure_bind]
  exact Analysis.simulates_findings (Resolver.simulates_withModule _ hcache (hpath ▸ hfree)) main o

/-- Any number of passes has the same outcome with a cache. -/
theorem simulates_advance (o : Options) {main : Path} (passes : Nat) (p : Fix.Progress)
    (h : p.source.path = main) :
    Simulates ⟨t, config⟩ (· = main) (Fix.advance (cached t config []) o passes p)
      (Fix.advance (fresh ⟨t, config⟩) o passes p) := by
  subst h
  induction passes generalizing p with
  | zero => exact .ret p
  | succ passes ih =>
    rw [Fix.advance, Fix.advance]
    refine (simulates_findings t config rfl o p.source (fun _ => id) fun _ _ => .inl rfl).bind
      fun findings => ?_
    dsimp only
    split
    · exact .ret p
    · exact (Analysis.simulates_lift _).bind fun edits => ih (p.after _ edits)

/-- A fix has the same outcome with a cache that it keeps through all passes. -/
theorem simulates_fix (o : Options) (s : Source) :
    Simulates ⟨t, config⟩ (· = s.path) ((cached t config []).fix o s)
      ((fresh ⟨t, config⟩).fix o s) := by
  rw [fix, fix]
  split
  · exact (simulates_advance t config o Fix.maxPasses { source := s } rfl).bind fun p => .ret _
  · exact .ret _

end Workspace

/-- A fix of a source in the project of its file is a fix that keeps one cache through all passes,
which is empty at first. -/
theorem fix_eq_cached {t : FileTree} {config : Option Config} (o : Options) {s : Source}
    (h : Config.forFile t s.path = .ok config) :
    (((Workspace.cached t config []).fix o s).run []).run.1 = fix t o s := by
  have hempty : ModuleCache.Faithful ⟨t, config⟩ (· = s.path) [] := by
    intro path known _ hknown
    cases hknown
  obtain ⟨cache, hrun, -⟩ := Workspace.simulates_fix t config o s [] hempty
  have hfix : fix t o s = (Workspace.fresh ⟨t, config⟩).fix o s := by
    rw [fix, Workspace.forFile, Resolver.forFile, h]
    rfl
  rw [hrun, hfix]
  rfl

end StableProps

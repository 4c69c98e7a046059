import StableProps.Lift.Analysis
import StableProps.Proofs.Outcome

/-!
# The steps of a pass

A pass goes through the sites of a module and tries the strategies for the value of each. A strategy
finds no place for a hook, calls a hook, uses a constant of the module, uses one that the pass
remembers, or makes one. There is no other way from one state of a pass to the next. So what a pass
keeps up is shown for each of these steps, and what it has done in the end by induction on the
strategies and the sites.
-/

namespace StableProps

open MonadAttach (CanReturn)

namespace Analysis

section

variable {m : Type → Type}

/-- The draft that calls a hook under a name. -/
def hookCall (a : Analysis m) (s : Site) (references : List Reference) (anchor : HookAnchor)
    (name : String) (b : BindingType) (plan : ImportPlan) : Draft :=
  { name
    keeping := .hook s.hook
    parts := {
      replacements := [replacement s name]
      insertions := [anchor.insertion (Declaration.hook name s.hook b.text
        (a.expressionText s anchor.indent) (Reference.hookDependencies references))]
      imports := a.entries (plan.merge b.plan) } }

/-- The draft that uses a constant of the module. -/
def existingUse (s : Site) (name : String) : Draft :=
  { name, keeping := .constant, parts := { replacements := [replacement s name] } }

/-- The draft that uses a constant of the pass. -/
def newUse (s : Site) (c : NewConstant) : Draft :=
  { name := c.name
    keeping := .constant
    parts := {
      replacements := [replacement s c.name]
      insertions := [c.insertion]
      imports := c.imports } }

/-- The constant that is made for the value of a site under a name. -/
def constantFor (a : Analysis m) (s : Site) (name : String) (b : BindingType) : NewConstant :=
  { name
    insertion := a.source.constantInsertion
      (Declaration.constant name b.text (a.expressionText s "")) a.options.position
    imports := a.entries b.plan }

variable [Monad m] [MonadExceptOf Failure m] [MonadAttach m]

/-- What a strategy does for a site: the draft that it gives, and the pass behind it. -/
inductive DraftStep (a : Analysis m) (s : Site) (references : List Reference) (pass : Pass) :
    Strategy → Option Draft → Pass → Prop where
  /-- There is no place in the component at which a hook could be called. -/
  | unplaced
      (unfound : HookAnchor.find? a.source.bytes s.component s.expression references = none) :
      DraftStep a s references pass .hook none pass
  /-- A hook is called under a new name. -/
  | called {anchor : HookAnchor} {b : BindingType} {plan : ImportPlan}
      (found : HookAnchor.find? a.source.bytes s.component s.expression references = some anchor)
      (typed : CanReturn (a.bindingType s (s.hook == .callback)) b)
      (planned : CanReturn (a.planner.ask (·.planHook {} s.hook.name)) plan) :
      DraftStep a s references pass .hook
        (some (a.hookCall s references anchor (a.newName s .hook pass).1 b plan))
        (a.newName s .hook pass).2
  /-- The module has a constant for the text of the value. -/
  | existing {name : String}
      (known : a.source.constants.lookup s.expression.node.text = some name) :
      DraftStep a s references pass .constant (some (existingUse s name)) pass
  /-- The pass has made a constant for the text. -/
  | remembered {c : NewConstant}
      (unknown : a.source.constants.lookup s.expression.node.text = none)
      (known : pass.constants.lookup s.expression.node.text = some c) :
      DraftStep a s references pass .constant (some (newUse s c)) pass
  /-- A constant is made under a new name, and is remembered for the text. -/
  | made {b : BindingType} (unknown : a.source.constants.lookup s.expression.node.text = none)
      (unmet : pass.constants.lookup s.expression.node.text = none)
      (typed : CanReturn (a.bindingType s false) b) :
      DraftStep a s references pass .constant
        (some (newUse s (a.constantFor s (a.newName s .constant pass).1 b)))
        { names := (a.newName s .constant pass).2.names
          constants := (s.expression.node.text,
            a.constantFor s (a.newName s .constant pass).1 b) :: pass.constants }

/-- What several strategies do for a site, one after the other. -/
inductive DraftSteps (a : Analysis m) (s : Site) (references : List Reference) :
    List Strategy → Pass → List Suggestion → Pass → Prop where
  | nil {pass : Pass} : DraftSteps a s references [] pass [] pass
  | cons {strategy : Strategy} {rest : List Strategy} {pass pass₁ pass₂ : Pass}
      {found : Option Draft} {first more : List Suggestion}
      (step : a.DraftStep s references pass strategy found pass₁)
      (drafts : first.map Suggestion.toDraft = found.toList)
      (edited : ∀ x ∈ first, CanReturn (lift (Patch.assemble a.source [x.parts]) : m _) x.edits)
      (steps : DraftSteps a s references rest pass₁ more pass₂) :
      DraftSteps a s references (strategy :: rest) pass (first ++ more) pass₂

/-- What a pass does at a site: the finding that it reports, and the pass behind it. -/
inductive SiteStep (a : Analysis m) (s : Site) (pass : Pass) : Option Finding → Pass → Prop where
  /-- Another function declares a name that the value uses. -/
  | passed {reason : SkipReason}
      (blocked : CanReturn (a.planner.ask fun p =>
        p.project.references p.main s.expression s.component) (.error reason)) :
      SiteStep a s pass none pass
  /-- The strategies for the value are tried. -/
  | reported {references : List Reference} {found : List Suggestion} {pass' : Pass}
      (kept : CanReturn (a.planner.ask fun p =>
        p.project.references p.main s.expression s.component) (.ok references))
      (steps : a.DraftSteps s references (Strategy.choose s.category references) pass found pass') :
      SiteStep a s pass (some (a.finding s found)) pass'

/-- What a pass does at several sites, one after the other. -/
inductive SiteSteps (a : Analysis m) : List Site → Pass → List Finding → Pass → Prop where
  | nil {pass : Pass} : SiteSteps a [] pass [] pass
  | cons {s : Site} {rest : List Site} {pass pass₁ pass₂ : Pass} {found : Option Finding}
      {more : List Finding} (step : a.SiteStep s pass found pass₁)
      (steps : SiteSteps a rest pass₁ more pass₂) :
      SiteSteps a (s :: rest) pass (found.toList ++ more) pass₂

end

section

variable {m : Type → Type} [Monad m] [LawfulMonad m] [MonadExceptOf Failure m] [MonadAttach m]
variable [LawfulMonadAttach m]
variable {a : Analysis m} {s : Site} {references : List Reference} {pass pass' : Pass}

/-- What `draft` returns is a step of one of the rules for its strategy. -/
theorem draftStep_of_draft {strategy : Strategy} {found : Option Draft}
    (h : CanReturn (a.draft s references pass strategy) (found, pass')) :
    a.DraftStep s references pass strategy found pass' := by
  cases strategy with
  | hook =>
    rw [draft, hookDraft] at h
    split at h
    next hanchor =>
      obtain ⟨rfl, rfl⟩ := Prod.mk.inj (eq_of_canReturn_pure h)
      exact .unplaced hanchor
    next anchor hanchor =>
      obtain ⟨b, hb, h⟩ := canReturn_bind h
      obtain ⟨plan, hplan, h⟩ := canReturn_bind h
      obtain ⟨rfl, rfl⟩ := Prod.mk.inj (eq_of_canReturn_pure h)
      exact .called hanchor hb hplan
  | constant =>
    obtain ⟨⟨d, pass₁⟩, hd, h⟩ := canReturn_bind h
    obtain ⟨rfl, rfl⟩ := Prod.mk.inj (eq_of_canReturn_pure h)
    rw [constantDraft] at hd
    split at hd
    next name hknown =>
      obtain ⟨rfl, rfl⟩ := Prod.mk.inj (eq_of_canReturn_pure hd)
      exact .existing hknown
    next hunknown =>
      obtain ⟨⟨c, pass₂⟩, hc, hd⟩ := canReturn_bind hd
      obtain ⟨rfl, rfl⟩ := Prod.mk.inj (eq_of_canReturn_pure hd)
      rw [newConstant] at hc
      split at hc
      next known hknown =>
        obtain ⟨rfl, rfl⟩ := Prod.mk.inj (eq_of_canReturn_pure hc)
        exact .remembered hunknown hknown
      next hunmet =>
        obtain ⟨b, hb, hc⟩ := canReturn_bind hc
        obtain ⟨rfl, rfl⟩ := Prod.mk.inj (eq_of_canReturn_pure hc)
        exact .made hunknown hunmet hb

private theorem draftSteps_of_suggestions {strategies : List Strategy} {found : List Suggestion}
    (h : CanReturn (a.suggestions s references strategies pass) (found, pass')) :
    a.DraftSteps s references strategies pass found pass' := by
  induction strategies generalizing pass found with
  | nil =>
    obtain ⟨rfl, rfl⟩ := Prod.mk.inj (eq_of_canReturn_pure h)
    exact .nil
  | cons strategy rest ih =>
    rw [suggestions] at h
    obtain ⟨⟨d, pass₁⟩, hd, h⟩ := canReturn_bind h
    obtain ⟨first, hfirst, h⟩ := canReturn_bind h
    obtain ⟨⟨more, pass₂⟩, hmore, h⟩ := canReturn_bind h
    obtain ⟨rfl, rfl⟩ := Prod.mk.inj (eq_of_canReturn_pure h)
    have hedited {d : Draft} {x : Suggestion} (hx : CanReturn (a.suggestion d) x) :
        x.toDraft = d ∧ CanReturn (lift (Patch.assemble a.source [d.parts]) : m _) x.edits := by
      obtain ⟨edits, hedits, hx⟩ := canReturn_bind hx
      obtain rfl := eq_of_canReturn_pure hx
      exact ⟨rfl, hedits⟩
    refine .cons (draftStep_of_draft hd) (map_eq_of_mapM (fun d x hx => (hedited hx).1) hfirst) ?_
      (ih hmore)
    intro x hx
    obtain ⟨d, -, hx⟩ := exists_of_mem_mapM hfirst hx
    obtain ⟨rfl, hedits⟩ := hedited hx
    exact hedits

/-- A site that is analysed takes a step: its suggestions are found one after the other. -/
theorem siteStep_of_analyzeSite {found : Option Finding}
    (h : CanReturn (a.analyzeSite s pass) (found, pass')) : a.SiteStep s pass found pass' := by
  rw [analyzeSite] at h
  obtain ⟨answer, hanswer, h⟩ := canReturn_bind h
  cases answer with
  | error reason =>
    obtain ⟨rfl, rfl⟩ := Prod.mk.inj (eq_of_canReturn_pure h)
    exact .passed hanswer
  | ok references =>
    obtain ⟨⟨list, pass₁⟩, hlist, h⟩ := canReturn_bind h
    obtain ⟨rfl, rfl⟩ := Prod.mk.inj (eq_of_canReturn_pure h)
    exact .reported hanswer (draftSteps_of_suggestions hlist)

/-- All sites of a pass are steps in a row, each from the memory that the one before left. -/
theorem exists_siteSteps_of_analyzeSites {sites : List Site} {findings : List Finding}
    (h : CanReturn (a.analyzeSites sites pass) findings) :
    ∃ last, a.SiteSteps sites pass findings last := by
  induction sites generalizing pass findings with
  | nil =>
    obtain rfl := eq_of_canReturn_pure h
    exact ⟨pass, .nil⟩
  | cons s rest ih =>
    rw [analyzeSites] at h
    obtain ⟨⟨found, pass₁⟩, hfound, h⟩ := canReturn_bind h
    obtain ⟨more, hmore, h⟩ := canReturn_bind h
    obtain rfl := eq_of_canReturn_pure h
    obtain ⟨last, hsteps⟩ := ih hmore
    exact ⟨last, .cons (siteStep_of_analyzeSite hfound) hsteps⟩

end

end Analysis

end StableProps

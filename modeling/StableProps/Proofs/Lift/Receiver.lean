import StableProps.Lift.Fix
import StableProps.Proofs.Lift.References
import StableProps.Proofs.Lift.Steps
import StableProps.Proofs.Module.Query

/-!
# The receiver of a value

A value can use `this`, which no name stands for. A function that is no arrow function, a method and
a class give `this` a meaning of its own; outside of all such forms in the value it means what it
means around the value, and not at the top of the module. Which suggestions a value gets depends on
its names alone: a constant is suggested exactly if no function declares one of them. So a value
that captures `this` is kept from the top of the module only by a name of a function that it uses as
well.
-/

namespace StableProps

open MonadAttach (CanReturn)

/-- Rules that make forms in which `this` has a meaning of its own. -/
def receiverKinds : List Kind :=
  [.functionDeclaration, .functionExpression, .generatorFunction, .generatorFunctionDeclaration,
   .methodDefinition, .classBody]

/-- An expression captures the receiver: it holds a `this` to which nothing in the expression gives
a meaning. -/
def Focus.CapturesThis (expression : Focus) : Prop :=
  ∃ f ∈ expression.walk, f.node.is .thisKeyword = true ∧
    ∀ g ∈ f.outward, g.isWithin expression = true → g.node.isOneOf receiverKinds = false

instance (expression : Focus) : Decidable expression.CapturesThis :=
  inferInstanceAs (Decidable (∃ f ∈ expression.walk, f.node.is .thisKeyword = true ∧
    ∀ g ∈ f.outward, g.isWithin expression = true → g.node.isOneOf receiverKinds = false))

namespace Analysis

section

variable {m : Type → Type} [Monad m] [MonadExceptOf Failure m] [MonadAttach m]
variable {a : Analysis m} {s : Site} {pass pass' : Pass} {references : List Reference}

/-- The draft of a strategy keeps the value by a constant exactly if the strategy is that of
constants, which always gives one. -/
theorem DraftStep.exists_constant_iff {strategy : Strategy} {found : Option Draft}
    (h : a.DraftStep s references pass strategy found pass') :
    (∃ d ∈ found, d.keeping = .constant) ↔ .constant = strategy := by
  cases h <;> simp [hookCall, existingUse, newUse]

/-- A constant is suggested exactly if it is one of the strategies. -/
theorem DraftSteps.exists_constant_iff {strategies : List Strategy} {found : List Suggestion}
    (h : a.DraftSteps s references strategies pass found pass') :
    (∃ x ∈ found, x.keeping = .constant) ↔ .constant ∈ strategies := by
  induction h with
  | nil => simp
  | @cons strategy rest pass pass₁ pass₂ d first more step drafts edited steps ih =>
    have hhead : (∃ x ∈ first, x.keeping = .constant) ↔ .constant = strategy := by
      rw [← step.exists_constant_iff]
      constructor
      · rintro ⟨x, hx, hkeeping⟩
        have hmem : x.toDraft ∈ d.toList := drafts ▸ List.mem_map_of_mem hx
        exact ⟨_, Option.mem_toList.1 hmem, hkeeping⟩
      · rintro ⟨e, he, hkeeping⟩
        have hmem : e ∈ first.map Suggestion.toDraft := drafts ▸ Option.mem_toList.2 he
        obtain ⟨x, hx, rfl⟩ := List.mem_map.1 hmem
        exact ⟨x, hx, hkeeping⟩
    simp only [List.mem_append, or_and_right, exists_or, List.mem_cons, hhead, ih]

end

variable {m : Type → Type} [Monad m] [LawfulMonad m] [MonadExceptOf Failure m] [MonadAttach m]
variable [LawfulMonadAttach m] {a : Analysis m} {s : Site} {pass pass' : Pass}

/-- A constant is suggested for a site exactly if no function declares a name that the value uses;
otherwise the site has a hook at most. -/
theorem exists_constant_iff_of_analyzeSite {found : Option Finding}
    (h : CanReturn (a.analyzeSite s pass) (found, pass')) :
    (∃ f ∈ found, ∃ x ∈ f.suggestions, x.keeping = .constant) ↔
      ∀ σ ∈ a.planner.main.scopes.outerSymbols s.expression, σ.declaringFunction? = none := by
  cases siteStep_of_analyzeSite h with
  | passed blocked =>
    obtain ⟨σ, hσ, hdeclared⟩ :=
      Project.exists_declaringFunction?_of_classifyAll (Query.canReturn_of_run blocked)
    exact ⟨by simp, fun hall => absurd (hall σ hσ) hdeclared⟩
  | @reported references list pass' kept steps =>
    obtain ⟨hsymbols, hexternal⟩ :=
      Project.references_of_classifyAll (Query.canReturn_of_run kept)
    calc (∃ f ∈ some (a.finding s list), ∃ x ∈ f.suggestions, x.keeping = .constant)
        ↔ ∃ x ∈ list, x.keeping = .constant := by simp [finding]
      _ ↔ .constant ∈ Strategy.choose s.category references :=
        steps.exists_constant_iff
      _ ↔ ∀ r ∈ references, r.symbol.declaringFunction? = none := by
        rw [Strategy.constant_mem_choose_iff]
        exact forall₂_congr hexternal
      _ ↔ ∀ σ ∈ a.planner.main.scopes.outerSymbols s.expression,
          σ.declaringFunction? = none := by
        rw [← hsymbols, List.forall_mem_map]

/-- No constant is suggested for a value that captures `this` exactly if the value uses the name of
some function as well. -/
theorem not_constant_of_capturesThis_iff (a : Analysis m) (s : Site) (pass : Pass)
    {found : Option Finding} {pass' : Pass}
    (h : CanReturn (a.analyzeSite s pass) (found, pass')) :
    (s.expression.CapturesThis → ∀ f ∈ found, ∀ x ∈ f.suggestions, x.keeping ≠ .constant) ↔
      (s.expression.CapturesThis → ∃ σ ∈ a.planner.main.scopes.outerSymbols s.expression,
        σ.declaringFunction? ≠ none) := by
  refine imp_congr_right fun _ => ?_
  have hiff := not_congr (exists_constant_iff_of_analyzeSite h)
  push Not at hiff
  exact hiff

/-- A class whose component uses `this`. -/
def thisInClass : Source :=
  .parsed (Language.snippetPath .tsx) .tsx
    "class B extends Component \x7b render() \x7b return <A b=\x7b[this.x]\x7d />; \x7d \x7d\n"

set_option maxRecDepth 100000 in
private theorem analyzeSite_thisInClass :
    ∃ planner, (Workspace.fresh ⟨.empty, none⟩).planner thisInClass = .ok planner ∧
      ∃ s ∈ Site.all thisInClass {} (IgnoreList.ofEntries []), s.expression.CapturesThis ∧
        planner.main.scopes.outerSymbols s.expression = [] ∧
          ∃ answer, analyzeSite ⟨planner, {}⟩ s {} = .ok answer ∧
            ∃ f, answer.1 = some f ∧ ∃ x ∈ f.suggestions, x.keeping = .constant := by
  have hcomputed :
      ∃ planner, (Workspace.fresh ⟨.empty, none⟩).planner thisInClass = .ok planner ∧
        ∃ s ∈ Site.all thisInClass {} (IgnoreList.ofEntries []), s.expression.CapturesThis ∧
          (planner.main.scopes.outerSymbols s.expression).isEmpty = true ∧
            ∃ answer, analyzeSite ⟨planner, {}⟩ s {} = .ok answer ∧
              ∃ f, answer.1 = some f ∧ ∃ x ∈ f.suggestions, x.keeping = .constant := by
    decide +kernel
  simpa only [List.isEmpty_iff] using hcomputed

/-- The value uses no name of a function, so a constant is suggested though it captures `this`. -/
theorem constant_thisInClass :
    ∃ planner, (Workspace.fresh ⟨.empty, none⟩).planner thisInClass = .ok planner ∧
      ∃ s ∈ Site.all thisInClass {} (IgnoreList.ofEntries []), s.expression.CapturesThis ∧
        ∃ answer, analyzeSite ⟨planner, {}⟩ s {} = .ok answer ∧
          ¬∀ f ∈ answer.1, ∀ x ∈ f.suggestions, x.keeping ≠ .constant := by
  obtain ⟨planner, hplanner, s, hs, hcaptures, hnone, answer, hanswer, -⟩ :=
    analyzeSite_thisInClass
  refine ⟨planner, hplanner, s, hs, hcaptures, answer, hanswer, fun hall => ?_⟩
  have hiff := not_constant_of_capturesThis_iff ⟨planner, {}⟩ s {} hanswer
  obtain ⟨σ, hσ, -⟩ := hiff.1 (fun _ => hall) hcaptures
  rw [hnone] at hσ
  cases hσ

/-- A constant may be suggested for a value that captures `this`. -/
theorem not_forall_not_constant :
    ¬∀ (source : Source) (planner : Planner (Except Failure)),
      (Workspace.fresh ⟨.empty, none⟩).planner source = .ok planner →
        ∀ s ∈ Site.all source {} (IgnoreList.ofEntries []), ∀ found pass,
          analyzeSite ⟨planner, {}⟩ s {} = .ok (found, pass) → s.expression.CapturesThis →
            ∀ f ∈ found, ∀ x ∈ f.suggestions, x.keeping ≠ .constant := by
  intro hall
  obtain ⟨planner, hplanner, s, hs, hcaptures, -, ⟨found, pass⟩, hanswer, f, hf, x, hx, hconstant⟩ :=
    analyzeSite_thisInClass
  exact hall _ planner hplanner s hs found pass hanswer hcaptures f hf x hx hconstant

end Analysis

end StableProps

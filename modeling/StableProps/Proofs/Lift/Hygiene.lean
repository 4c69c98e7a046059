import StableProps.Proofs.Lift.Pass

/-!
# Names of constants at their sites

The name of a constant reaches the constant from a site exactly if no local scope around the site
declares the name. A name that is made for a site is not captured there. A name can be captured
only if it is reused: it belongs to a constant that the module has, or was made for an earlier site
with the same text, where it is not captured.
-/

namespace StableProps

open MonadAttach (CanReturn)

/-- A name is captured at a site: a scope around the site, that of the module excepted, declares a
value of that name. -/
def Site.Captures (root : Node) (s : Site) (name : String) : Prop :=
  ∃ scope ∈ (ScopeTree.ofModule root).localScopes s.expression, scope.DeclaresValue name

instance (root : Node) (s : Site) (name : String) : Decidable (s.Captures root name) :=
  inferInstanceAs (Decidable (∃ scope ∈ (ScopeTree.ofModule root).localScopes s.expression,
    name ∈ scope.values.map Prod.fst))

variable {m : Type → Type}

/-- What is captured at a site can be seen there. -/
theorem Analysis.mem_visibleNames_of_captures {a : Analysis m}
    (hindex : a.planner.main.IsOf a.source) {s : Site} {name : String}
    (h : s.Captures a.source.root name) : name ∈ a.visibleNames s := by
  obtain ⟨scope, hscope, hname⟩ := h
  rw [Analysis.visibleNames, hindex.scopes]
  refine List.mem_append_left _ (List.mem_flatMap.2 ⟨scope, List.dropLast_subset _ hscope, ?_⟩)
  exact List.mem_append_left _ hname

/-- A captured name of a constant is reused: the module has a constant of that name for the text, or
the name was made for an earlier site with the same text, where it is not captured. -/
theorem Analysis.Names.reused {a : Analysis m} (hindex : a.planner.main.IsOf a.source)
    {earlier : List Site} {s : Site} {name : String}
    (h : a.Names (earlier ++ [s]) s .constant name) (hcaptured : s.Captures a.source.root name) :
    a.source.constants.lookup s.expression.node.text = some name ∨
      ∃ t ∈ earlier, t.expression.node.text = s.expression.node.text ∧
        ¬t.Captures a.source.root name := by
  cases h with
  | existing constant => exact .inl constant
  | made t mem text makes =>
    have hfree : ¬t.Captures a.source.root name :=
      fun hcaptures => makes.not_mem_visibleNames (mem_visibleNames_of_captures hindex hcaptures)
    rcases List.mem_append.1 mem with hearlier | hself
    · exact .inr ⟨t, hearlier, text, hfree⟩
    · rw [List.mem_singleton.1 hself] at hfree
      exact absurd hcaptured hfree

variable [Monad m] [LawfulMonad m] [MonadExceptOf Failure m] [MonadAttach m]
variable [LawfulMonadAttach m] [LawfulFailure m]

/-- Every constant that a pass suggests stands for the value of a site. From there its name reaches
the name of the module exactly if it is not captured, and it is captured only if it is reused. -/
theorem Workspace.captures_only_reused (w : Workspace m) (o : Options) (source : Source)
    (findings : List Finding) (h : CanReturn (w.findings o source) findings) (f : Finding)
    (hf : f ∈ findings) (x : Suggestion) (hx : x ∈ f.suggestions)
    (hconstant : x.keeping = .constant) :
    ∃ earlier s later,
      Site.all source o (IgnoreList.ofEntries o.ignored) = earlier ++ s :: later ∧
      x.parts.replacements = [Analysis.replacement s x.name] ∧
      ((ScopeTree.ofModule source.root).lookup s.expression x.name .value =
          (ScopeTree.ofModule source.root).lookup source.focus x.name .value ↔
        ¬s.Captures source.root x.name) ∧
      (s.Captures source.root x.name →
        source.constants.lookup s.expression.node.text = some x.name ∨
          ∃ t ∈ earlier, t.expression.node.text = s.expression.node.text ∧
            ¬t.Captures source.root x.name) := by
  obtain ⟨a, rfl, rfl, hindex, hfindings⟩ := exists_analysis h
  obtain ⟨earlier, s, later, hsites, hreports⟩ :=
    (Analysis.reports_of_findings hindex hfindings).2 f hf
  have hsuggests := hreports.suggestions x hx
  have hmem : s ∈ a.allSites := by
    rw [hsites]
    exact List.mem_append_right _ List.mem_cons_self
  have hs : s.StandsIn a.source.root := Site.standsIn_of_mem_all hmem
  refine ⟨earlier, s, later, hsites, hsuggests.drafts.replaces, ?_, ?_⟩
  · rw [Source.focus,
      ScopeTree.lookup_eq_lookup_root_iff a.source.wellFormed hs.expression_isIn, Site.Captures]
    simp
  · have hnames := hsuggests.drafts.names
    rw [hconstant] at hnames
    exact hnames.reused hindex

/-- A module with a constant whose name means something else in the component. -/
def shadowedConstant : Source :=
  .parsed (Language.snippetPath .tsx) .tsx
    ("const X = [1];\n" ++
      "function C() \x7b const X = 5; return <A b=\x7b[1]\x7d />; \x7d\n")

set_option maxRecDepth 100000 in
private theorem captures_shadowedConstant :
    ∃ findings, (Workspace.fresh ⟨.empty, none⟩).findings {} shadowedConstant = .ok findings ∧
      ∃ f ∈ findings, ∃ x ∈ f.suggestions, x.keeping = .constant ∧
        (∃ s ∈ Site.all shadowedConstant {} (IgnoreList.ofEntries []),
          x.parts.replacements = [Analysis.replacement s x.name]) ∧
        ∀ s ∈ Site.all shadowedConstant {} (IgnoreList.ofEntries []),
          s.Captures shadowedConstant.root x.name := by
  decide +kernel

/-- The name is captured because the constant of the module is used again. -/
theorem Workspace.reuses_shadowedConstant :
    ∃ findings, (fresh ⟨.empty, none⟩).findings {} shadowedConstant = .ok findings ∧
      ∃ f ∈ findings, ∃ x ∈ f.suggestions, x.keeping = .constant ∧
        ∃ s ∈ Site.all shadowedConstant {} (IgnoreList.ofEntries []),
          x.parts.replacements = [Analysis.replacement s x.name] ∧
            shadowedConstant.constants.lookup s.expression.node.text = some x.name := by
  obtain ⟨findings, hfindings, f, hf, x, hx, hconstant, -, hcaptures⟩ := captures_shadowedConstant
  obtain ⟨earlier, s, later, hsites, hreplaces, -, hreused⟩ :=
    captures_only_reused (fresh ⟨.empty, none⟩) {} shadowedConstant findings hfindings f hf x hx
      hconstant
  change Site.all shadowedConstant {} (IgnoreList.ofEntries []) = _ at hsites
  have hs : s ∈ Site.all shadowedConstant {} (IgnoreList.ofEntries []) := by
    rw [hsites]
    exact List.mem_append_right _ List.mem_cons_self
  refine ⟨findings, hfindings, f, hf, x, hx, hconstant, s, hs, hreplaces, ?_⟩
  rcases hreused (hcaptures s hs) with hexisting | ⟨t, ht, -, hfree⟩
  · exact hexisting
  · refine absurd (hcaptures t ?_) hfree
    rw [hsites]
    exact List.mem_append_left _ ht

/-- The name of a constant can be captured at the site it is suggested for. -/
theorem Workspace.not_forall_not_captures :
    ¬∀ (source : Source) (findings : List Finding),
      (fresh ⟨.empty, none⟩).findings {} source = .ok findings →
        ∀ f ∈ findings, ∀ x ∈ f.suggestions, x.keeping = .constant →
          ∀ s ∈ Site.all source {} (IgnoreList.ofEntries []),
            x.parts.replacements = [Analysis.replacement s x.name] →
              ¬s.Captures source.root x.name := by
  intro hall
  obtain ⟨findings, hfindings, f, hf, x, hx, hconstant, ⟨s, hs, hreplaces⟩, hcaptures⟩ :=
    captures_shadowedConstant
  exact hall _ findings hfindings f hf x hx hconstant s hs hreplaces (hcaptures s hs)

end StableProps

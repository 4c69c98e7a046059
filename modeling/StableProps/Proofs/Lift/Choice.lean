import StableProps.Proofs.Lift.Failing
import StableProps.Proofs.Lift.Overlap

/-!
# Choosing fixes

For any findings of a pass, each with one of its suggestions, the chosen fixes can be assembled
exactly if no finding contains another one and none lies in an import declaration that the fixes
rewrite. A pass itself assembles each suggestion alone, which fails only if its site lies in such a
declaration.
-/

namespace StableProps

open MonadAttach (CanReturn)

namespace Finding

/-- The value of a finding contains that of another one. -/
def Contains (f g : Finding) : Prop := f.start ≤ g.start ∧ g.stop ≤ f.stop

/-- The value of a finding lies in a range. -/
def LiesIn (f : Finding) (span : Nat × Nat) : Prop := span.1 ≤ f.start ∧ f.stop ≤ span.2

instance (f g : Finding) : Decidable (f.Contains g) :=
  inferInstanceAs (Decidable (f.start ≤ g.start ∧ g.stop ≤ f.stop))

instance (f : Finding) (span : Nat × Nat) : Decidable (f.LiesIn span) :=
  inferInstanceAs (Decidable (span.1 ≤ f.start ∧ f.stop ≤ span.2))

end Finding

/-- Some of the findings of a pass, each of them with one of its suggestions. -/
structure IsChoice (findings : List Finding) (chosen : List (Finding × Suggestion)) : Prop where
  of_pass : ∀ c ∈ chosen, c.1 ∈ findings ∧ c.2 ∈ c.1.suggestions
  one : ∀ c ∈ chosen, ∀ d ∈ chosen, c.1 = d.1 → c = d

/-- First suggestions of findings are a choice. -/
theorem isChoice_of_head? {findings : List Finding} {chosen : List (Finding × Suggestion)}
    (h : ∀ c ∈ chosen, c.1 ∈ findings ∧ c.1.suggestions.head? = some c.2) :
    IsChoice findings chosen where
  of_pass c hc := ⟨(h c hc).1, List.mem_of_head? (h c hc).2⟩
  one c hc d hd heq := by
    have hsame : some c.2 = some d.2 := by rw [← (h c hc).2, ← (h d hd).2, heq]
    exact Prod.ext heq (Option.some.inj hsame)

/-- The parts of the chosen suggestions. -/
def chosenParts (chosen : List (Finding × Suggestion)) : List FixParts := chosen.map (·.2.parts)

/-- No site of a source lies in an import declaration at the top of the module. -/
def Source.ImportsHoldNoSite (s : Source) (o : Options) : Prop :=
  ∀ x ∈ Site.all s o (IgnoreList.ofEntries o.ignored), ∀ n ∈ s.root.children,
    n.is .importStatement = true → ¬x.LiesIn (n.start, n.stop)

namespace Analysis

section

variable {m : Type → Type} [Monad m] [LawfulMonad m] [MonadExceptOf Failure m] [MonadAttach m]
variable [LawfulMonadAttach m] [LawfulFailure m]
variable {a : Analysis m} {findings : List Finding}

/-- Findings of a pass that start together are the same one. -/
theorem eq_of_start_eq (hindex : a.planner.main.IsOf a.source) (h : CanReturn a.findings findings)
    {f g : Finding} (hf : f ∈ findings) (hg : g ∈ findings) (hstart : f.start = g.start) :
    f = g := by
  have hsites : (a.allSites.map (·.expression.node.start)).Nodup :=
    List.pairwise_map.2 (Site.pairwise_all _ _ _)
  have hnodup := hsites.sublist (reports_of_findings hindex h).1
  exact List.inj_on_of_nodup_map hnodup hf hg hstart

/-- Chosen suggestions are drafts for different values. -/
theorem exists_places (hindex : a.planner.main.IsOf a.source) (h : CanReturn a.findings findings)
    {chosen : List (Finding × Suggestion)} (hchosen : IsChoice findings chosen) :
    ∃ site : ∀ c ∈ chosen, Site,
      (∀ c hc, site c hc ∈ a.allSites ∧ c.1.start = (site c hc).expression.node.start ∧
        c.1.stop = (site c hc).expression.node.stop) ∧
      a.Places (chosen.attach.map fun c => (site c.1 c.2, c.1.2.toDraft)) := by
  have hsite : ∀ c ∈ chosen, ∃ s ∈ a.allSites, ∃ sites, a.Reports sites s c.1 :=
    fun c hc => exists_site_of_mem_findings hindex h (hchosen.of_pass c hc).1
  choose site hmem sites hreports using hsite
  refine ⟨site, fun c hc => ⟨hmem c hc, (hreports c hc).start, (hreports c hc).stop⟩, hindex, ?_,
    ?_, ?_⟩
  · intro x hx
    obtain ⟨c, -, rfl⟩ := List.mem_map.1 hx
    exact Site.standsIn_of_mem_all (hmem c.1 c.2)
  · intro x hx
    obtain ⟨c, -, rfl⟩ := List.mem_map.1 hx
    exact ⟨_, ((hreports c.1 c.2).suggestions c.1.2 (hchosen.of_pass c.1 c.2).2).drafts⟩
  · intro x hx y hy heq
    obtain ⟨⟨c, hc⟩, -, rfl⟩ := List.mem_map.1 hx
    obtain ⟨⟨d, hd⟩, -, rfl⟩ := List.mem_map.1 hy
    have hstart : c.1.start = d.1.start := by
      rw [(hreports c hc).start, (hreports d hd).start]
      exact congrArg (·.node.start) heq
    obtain rfl := hchosen.one c hc d hd
      (eq_of_start_eq hindex h (hchosen.of_pass c hc).1 (hchosen.of_pass d hd).1 hstart)
    rfl

omit [LawfulMonad m] [MonadExceptOf Failure m] [MonadAttach m] [LawfulMonadAttach m]
  [LawfulFailure m] [Monad m] in
private theorem partsOf_attach {chosen : List (Finding × Suggestion)} (site : ∀ c ∈ chosen, Site) :
    partsOf (chosen.attach.map fun c => (site c.1 c.2, c.1.2.toDraft)) = chosenParts chosen := by
  rw [partsOf, List.map_map]
  exact List.attach_map_val (f := fun c : Finding × Suggestion => c.2.parts)

/-- Nothing empty is replaced by chosen suggestions. -/
theorem start_lt_stop_of_chosen (hindex : a.planner.main.IsOf a.source)
    (h : CanReturn a.findings findings) {chosen : List (Finding × Suggestion)}
    (hchosen : IsChoice findings chosen) {r : Edit}
    (hr : r ∈ Patch.replacements (chosenParts chosen)) : r.start < r.stop := by
  obtain ⟨site, -, hplaces⟩ := exists_places hindex h hchosen
  rw [← partsOf_attach site] at hr
  exact hplaces.start_lt_stop hr

/-- Chosen suggestions can be assembled exactly if no finding contains another one and none lies in
an import declaration that they rewrite, which is a statement of the module. -/
theorem isOk_assemble_chosenParts_iff (hindex : a.planner.main.IsOf a.source)
    (h : CanReturn a.findings findings) {chosen : List (Finding × Suggestion)}
    (hchosen : IsChoice findings chosen) :
    ((Patch.assemble a.source (chosenParts chosen)).isOk = true ↔
      (∀ c ∈ chosen, ∀ d ∈ chosen, c.1 ≠ d.1 → ¬c.1.Contains d.1) ∧
        ∀ c ∈ chosen, ∀ span ∈ Patch.rewritten (chosenParts chosen), ¬c.1.LiesIn span) ∧
      (∀ span ∈ Patch.rewritten (chosenParts chosen), ∃ n ∈ a.source.root.children,
        n.is .importStatement = true ∧ span = (n.start, n.stop)) := by
  obtain ⟨site, hsite, hplaces⟩ := exists_places hindex h hchosen
  have hparts := partsOf_attach site
  have hmem {c : Finding × Suggestion} (hc : c ∈ chosen) :
      (site c hc, c.2.toDraft) ∈ chosen.attach.map fun c => (site c.1 c.2, c.1.2.toDraft) :=
    List.mem_map_of_mem (List.mem_attach chosen ⟨c, hc⟩)
  -- Findings start and stop where the values of their sites do.
  have hcovers {c d : Finding × Suggestion} (hc : c ∈ chosen) (hd : d ∈ chosen) :
      (site c hc).expression.Covers (site d hd).expression ↔ c.1.Contains d.1 := by
    obtain ⟨-, hstart, hstop⟩ := hsite c hc
    obtain ⟨-, hstart', hstop'⟩ := hsite d hd
    rw [Finding.Contains, hstart, hstop, hstart', hstop', Focus.Covers]
  have hlies {c : Finding × Suggestion} (hc : c ∈ chosen) (span : Nat × Nat) :
      (site c hc).LiesIn span ↔ c.1.LiesIn span := by
    obtain ⟨-, hstart, hstop⟩ := hsite c hc
    rw [Finding.LiesIn, hstart, hstop, Site.LiesIn]
  have hiff := hplaces.isOk_assemble_iff
  rw [hparts] at hiff
  refine ⟨hiff.trans (and_congr ?_ ?_), ?_⟩
  · constructor
    · intro hnested c hc d hd hne hcontains
      refine hnested _ (hmem hc) _ (hmem hd) ?_ ((hcovers hc hd).2 hcontains)
      intro heq
      refine hne (eq_of_start_eq hindex h (hchosen.of_pass c hc).1 (hchosen.of_pass d hd).1 ?_)
      rw [(hsite c hc).2.1, (hsite d hd).2.1]
      exact congrArg (·.1.expression.node.start) heq
    · intro hnested x hx y hy hne
      obtain ⟨⟨c, hc⟩, -, rfl⟩ := List.mem_map.1 hx
      obtain ⟨⟨d, hd⟩, -, rfl⟩ := List.mem_map.1 hy
      rw [hcovers hc hd]
      refine hnested c hc d hd ?_
      intro heq
      obtain rfl := hchosen.one c hc d hd heq
      exact hne rfl
  · constructor
    · intro himports c hc span hspan
      exact fun hlie => himports _ (hmem hc) span hspan ((hlies hc span).2 hlie)
    · intro himports x hx span hspan
      obtain ⟨⟨c, hc⟩, -, rfl⟩ := List.mem_map.1 hx
      rw [hlies hc]
      exact himports c hc span hspan
  · intro span hspan
    rw [← hparts] at hspan
    exact hplaces.statement_of_mem_rewritten hspan

end

/-- A draft whose parts cannot be put together belongs to a site in an import declaration. -/
theorem exists_liesIn_of_assemble {m : Type → Type} [Monad m] [MonadExceptOf Failure m]
    [MonadAttach m] {a : Analysis m} (hindex : a.planner.main.IsOf a.source) {s : Site}
    (hs : s.StandsIn a.source.root)
    {sites : List Site} {d : Draft} (hd : a.Drafts sites s d) {f : Failure}
    (h : Patch.assemble a.source [d.parts] = .error f) :
    ∃ n ∈ a.source.root.children, n.is .importStatement = true ∧ s.LiesIn (n.start, n.stop) := by
  have hplaces : a.Places [(s, d)] := by
    refine ⟨hindex, ?_, ?_, ?_⟩
    · intro x hx
      rw [List.mem_singleton.1 hx]
      exact hs
    · intro x hx
      rw [List.mem_singleton.1 hx]
      exact ⟨sites, hd⟩
    · intro x hx y hy _
      rw [List.mem_singleton.1 hx, List.mem_singleton.1 hy]
  by_contra hfree
  have hok : (Patch.assemble a.source [d.parts]).isOk = true := by
    refine hplaces.isOk_assemble_iff.2 ⟨?_, ?_⟩
    · intro x hx y hy hne
      rw [List.mem_singleton.1 hx, List.mem_singleton.1 hy] at hne
      exact absurd rfl hne
    · intro x hx span hspan hlie
      obtain ⟨n, hn, his, rfl⟩ := hplaces.statement_of_mem_rewritten hspan
      rw [List.mem_singleton.1 hx] at hlie
      exact hfree ⟨n, hn, his, hlie⟩
  rw [h] at hok
  cases hok

end Analysis

variable {m : Type → Type} [Monad m] [LawfulMonad m] [MonadExceptOf Failure m] [MonadAttach m]
variable [LawfulMonadAttach m] [LawfulFailure m]

/-- Suggestions chosen for findings of a pass can be assembled exactly if no finding contains
another one and none lies in an import declaration that is rewritten. If no site of the source lies
in an import declaration, only the first matters, and no analysis of the source meets an overlap. -/
theorem Workspace.isOk_assemble_iff_not_contains (w : Workspace m) (o : Options) (s : Source) :
    (∀ findings, CanReturn (w.findings o s) findings →
      ∀ chosen, IsChoice findings chosen →
        ((Patch.assemble s (chosenParts chosen)).isOk = true ↔
          (∀ c ∈ chosen, ∀ d ∈ chosen, c.1 ≠ d.1 → ¬c.1.Contains d.1) ∧
            ∀ c ∈ chosen, ∀ span ∈ Patch.rewritten (chosenParts chosen), ¬c.1.LiesIn span) ∧
        (s.ImportsHoldNoSite o → ((Patch.assemble s (chosenParts chosen)).isOk = true ↔
          ∀ c ∈ chosen, ∀ d ∈ chosen, c.1 ≠ d.1 → ¬c.1.Contains d.1))) ∧
      (s.ImportsHoldNoSite o → ∀ t start stop previousStart previousStop,
        StableProps.analyze t o s ≠ .error (.overlap start stop previousStart previousStop)) := by
  constructor
  · intro findings h chosen hchosen
    obtain ⟨a, rfl, rfl, hindex, hfindings⟩ := exists_analysis h
    obtain ⟨hiff, hstatement⟩ := Analysis.isOk_assemble_chosenParts_iff hindex hfindings hchosen
    refine ⟨hiff, ?_⟩
    intro hfree
    rw [hiff]
    refine and_iff_left ?_
    intro c hc span hspan hlie
    obtain ⟨n, hn, his, rfl⟩ := hstatement span hspan
    obtain ⟨site, hmem, sites, hreports⟩ :=
      Analysis.exists_site_of_mem_findings hindex hfindings (hchosen.of_pass c hc).1
    rw [Finding.LiesIn, hreports.start, hreports.stop] at hlie
    exact hfree site hmem n hn his hlie
  · intro hfree t start stop previousStart previousStop h
    rcases exists_failsAt_of_analyze h with hlookup | ⟨a, rfl, rfl, hindex, hfails⟩
    · cases hlookup
    · rcases hfails with hlookup | ⟨x, hx, met, d, hd, hoverlap⟩
      · cases hlookup
      · obtain ⟨n, hn, his, hlie⟩ := Analysis.exists_liesIn_of_assemble hindex
          (Site.standsIn_of_mem_all hx) hd hoverlap
        exact hfree x hx n hn his hlie

/-- A module with one finding in its import declaration and one behind it, which needs a hook from
the same package. -/
def findingInImport : Source :=
  .parsed (Language.snippetPath .tsx) .tsx
    ("import a from 'react' with \x7b x: () => <A b=\x7b[1]\x7d /> \x7d;\n" ++
      "const C = () => <B pick=\x7b() => 1\x7d />;\n")

set_option maxRecDepth 100000 in
private theorem findings_findingInImport :
    ∃ findings, (Workspace.fresh ⟨.empty, none⟩).findings {} findingInImport = .ok findings ∧
      ∃ f ∈ findings, ∃ x, f.suggestions.head? = some x ∧
        ∃ g ∈ findings, ∃ y, g.suggestions.head? = some y ∧ ¬f.Contains g ∧ ¬g.Contains f ∧
          ∃ span ∈ Patch.rewritten (chosenParts [(f, x), (g, y)]), f.LiesIn span := by
  decide +kernel

/-- The two findings do not contain each other, but one lies in the declaration that the fix for the
other one rewrites. -/
theorem Workspace.not_isOk_assemble_findingInImport :
    ∃ findings, (fresh ⟨.empty, none⟩).findings {} findingInImport = .ok findings ∧
      ∃ f ∈ findings, ∃ x ∈ f.suggestions, ∃ g ∈ findings, ∃ y ∈ g.suggestions,
        ¬f.Contains g ∧ ¬g.Contains f ∧
          ¬(Patch.assemble findingInImport (chosenParts [(f, x), (g, y)])).isOk = true := by
  obtain ⟨findings, hfindings, f, hf, x, hx, g, hg, y, hy, hfg, hgf, span, hspan, hlie⟩ :=
    findings_findingInImport
  refine ⟨findings, hfindings, f, hf, x, List.mem_of_head? hx, g, hg, y, List.mem_of_head? hy,
    hfg, hgf, ?_⟩
  have hchosen : IsChoice findings [(f, x), (g, y)] := by
    refine isChoice_of_head? ?_
    simp [hf, hx, hg, hy]
  intro hok
  have hiff := (isOk_assemble_iff_not_contains (fresh ⟨.empty, none⟩) {} findingInImport).1
    findings hfindings _ hchosen
  exact (hiff.1.1 hok).2 (f, x) List.mem_cons_self span hspan hlie

/-- A module whose import declaration holds a component that needs a hook from the same package. -/
def hookInImport : Source :=
  .parsed (Language.snippetPath .tsx) .tsx
    "import a from 'react' with \x7b x: () => <A b=\x7b() => 1\x7d /> \x7d;\n"

set_option maxRecDepth 100000 in
/-- The hook is inserted into the declaration that has to be rewritten for it. -/
theorem analyze_hookInImport :
    analyze .empty {} hookInImport = .error (.overlap 38 38 0 58) := by
  have hfails : (match analyze .empty {} hookInImport with
      | .error f => f == .overlap 38 38 0 58
      | .ok _ => false) = true := by
    decide +kernel
  cases h : analyze .empty {} hookInImport with
  | ok findings =>
    rw [h] at hfails
    cases hfails
  | error f =>
    rw [h] at hfails
    rw [eq_of_beq hfails]

end StableProps

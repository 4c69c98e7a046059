import StableProps.Proofs.Lift.Pass
import StableProps.Proofs.Site.Identifier

/-!
# Names that suggestions declare

A suggestion declares a name that was made for its site, or for a site with the same text if the
value becomes a constant. It is an identifier unless that site is misnamed: its element goes by a
tag with a mark in it, or by a class that starts with a digit.
-/

namespace StableProps

open MonadAttach (CanReturn)

variable {m : Type → Type}

/-- A suggestion uses a constant that the module has for the value, or its name was made for the
site, or for a site with the same text. -/
theorem Analysis.Names.existing_or_chosen {a : Analysis m} {sites : List Site} {s : Site}
    {keeping : Keeping} {name : String} (h : a.Names sites s keeping name) (hs : s ∈ sites) :
    keeping = .constant ∧ a.source.constants.lookup s.expression.node.text = some name ∨
      ∃ t ∈ sites, t.expression.node.text = s.expression.node.text ∧
        a.Makes t keeping.strategy name := by
  cases h with
  | hook makes => exact .inr ⟨s, hs, rfl, makes⟩
  | existing constant => exact .inl ⟨rfl, constant⟩
  | made t mem text makes => exact .inr ⟨t, mem, text, makes⟩

variable [Monad m] [LawfulMonad m] [MonadExceptOf Failure m] [MonadAttach m]
variable [LawfulMonadAttach m] [LawfulFailure m]

/-- Every suggestion replaces the value of a site by its name. The name is that of a constant which
the module has, or it was chosen for the site or for one with the same text. A chosen name is an
identifier exactly if the strategy does not misname that site. -/
theorem Workspace.isIdentifier_name_iff (w : Workspace m) (o : Options) (source : Source)
    (findings : List Finding) (h : CanReturn (w.findings o source) findings) (f : Finding)
    (hf : f ∈ findings) (x : Suggestion) (hx : x ∈ f.suggestions) :
    ∃ s ∈ Site.all source o (IgnoreList.ofEntries o.ignored),
      x.parts.replacements = [Analysis.replacement s x.name] ∧
      (x.keeping = .constant ∧
          source.constants.lookup s.expression.node.text = some x.name ∨
        ∃ t ∈ Site.all source o (IgnoreList.ofEntries o.ignored),
          t.expression.node.text = s.expression.node.text ∧
          (∃ taken, x.name = FreshName.choose taken (t.canonicalName x.keeping.strategy)) ∧
          (IsIdentifier x.name ↔ ¬t.IsMisnamed x.keeping.strategy)) := by
  obtain ⟨a, rfl, rfl, hindex, hfindings⟩ := exists_analysis h
  obtain ⟨earlier, s, later, hsites, hreports⟩ :=
    (Analysis.reports_of_findings hindex hfindings).2 f hf
  have hmet : earlier ++ [s] ⊆ a.allSites := by
    rw [hsites]
    simp
  have hdrafts := (hreports.suggestions x hx).drafts
  refine ⟨s, hmet (by simp), hdrafts.replaces, ?_⟩
  rcases hdrafts.names.existing_or_chosen (by simp) with hexisting | ⟨t, ht, htext, hmakes⟩
  · exact .inl hexisting
  · obtain ⟨others, hname⟩ := hmakes
    refine .inr ⟨t, hmet ht, htext, ⟨_, hname⟩, ?_⟩
    rw [hname]
    exact Site.isIdentifier_choose_canonicalName_iff (Site.host_eq_or_of_mem_all (hmet ht)) _

/-- A module with an element whose tag holds a hyphen. -/
def hyphenatedTag : Source :=
  .parsed (Language.snippetPath .tsx) .tsx
    "function C() \x7b return <my-element b=\x7b[1]\x7d />; \x7d\n"

set_option maxRecDepth 100000 in
private theorem findings_hyphenatedTag :
    ∃ findings, (Workspace.fresh ⟨.empty, none⟩).findings { typeDefinitions := false }
        hyphenatedTag = .ok findings ∧
      ∃ f ∈ findings, ∃ x ∈ f.suggestions, x.parts.insertions ≠ [] ∧
        (∀ s ∈ Site.all hyphenatedTag {} (IgnoreList.ofEntries []),
          hyphenatedTag.constants.lookup s.expression.node.text = none ∧
            s.host = s.tag.node.componentName ∧ '-' ∈ s.host.toList) ∧
          ¬IsIdentifier x.name := by
  decide +kernel

/-- The name that is made for the element holds its hyphen. -/
theorem Workspace.not_isIdentifier_hyphenatedTag :
    ∃ findings, (fresh ⟨.empty, none⟩).findings { typeDefinitions := false } hyphenatedTag =
        .ok findings ∧
      ∃ f ∈ findings, ∃ x ∈ f.suggestions, ¬IsIdentifier x.name := by
  obtain ⟨findings, hfindings, f, hf, x, hx, -, hsites, -⟩ := findings_hyphenatedTag
  refine ⟨findings, hfindings, f, hf, x, hx, ?_⟩
  obtain ⟨s, hs, -, ⟨-, hexisting⟩ | ⟨t, ht, -, -, hiff⟩⟩ :=
    isIdentifier_name_iff (fresh ⟨.empty, none⟩) { typeDefinitions := false } hyphenatedTag findings
      hfindings f hf x hx
  · rw [(hsites s hs).1] at hexisting
    cases hexisting
  · obtain ⟨-, htag, hhyphen⟩ := hsites t ht
    rw [hiff]
    exact not_not_intro (.mark '-' htag hhyphen (by decide))

/-- The name that a suggestion declares need not be an identifier. -/
theorem Workspace.not_forall_isIdentifier_name :
    ¬∀ (o : Options) (source : Source) (findings : List Finding),
      (fresh ⟨.empty, none⟩).findings o source = .ok findings →
        ∀ f ∈ findings, ∀ x ∈ f.suggestions, x.parts.insertions ≠ [] →
          IsIdentifier x.name := by
  intro hall
  obtain ⟨findings, hfindings, f, hf, x, hx, hdeclares, -, hnot⟩ := findings_hyphenatedTag
  exact hnot (hall _ _ findings hfindings f hf x hx hdeclares)

end StableProps

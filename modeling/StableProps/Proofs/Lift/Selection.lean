import StableProps.Lift.Fix
import StableProps.Proofs.Lift.Choice

/-!
# Selecting the fixes of a pass

A pass goes through its findings in order and takes each first suggestion that can be assembled with
those taken before. What it takes can always be assembled. What it leaves out stands in the way of
something taken: one of the two values contains the other one, or one of them lies in an import
declaration that has to be rewritten. Since every suggestion can be assembled alone, nothing is
taken only if there is nothing to take.
-/

namespace StableProps

open MonadAttach (CanReturn)

namespace Fix

variable {s : Source} {findings : List Finding}

/-- Parts are taken if they can be put together with those that were taken before. -/
private theorem take_eq (s : Source) (taken : List FixParts) (parts : FixParts) :
    take s taken parts =
      if (Patch.assemble s (taken ++ [parts])).isOk then taken ++ [parts] else taken := by
  rw [take]
  cases Patch.assemble s (taken ++ [parts]) <;> rfl

/-- Nothing that was taken is given up. -/
private theorem prefix_take (s : Source) (taken : List FixParts) (parts : FixParts) :
    taken <+: take s taken parts := by
  rw [take_eq]
  split
  · exact List.prefix_append _ _
  · exact List.prefix_rfl

/-- Nothing that was taken is given up, however many candidates follow. -/
private theorem prefix_foldl_take (s : Source) (taken candidates : List FixParts) :
    taken <+: candidates.foldl (take s) taken := by
  induction candidates generalizing taken with
  | nil => exact List.prefix_rfl
  | cons parts candidates ih =>
    rw [List.foldl_cons]
    exact (prefix_take s taken parts).trans (ih _)

/-- Only candidates are taken. -/
private theorem mem_of_mem_foldl_take {taken candidates : List FixParts} {x : FixParts}
    (h : x ∈ candidates.foldl (take s) taken) : x ∈ taken ∨ x ∈ candidates := by
  induction candidates generalizing taken with
  | nil => exact .inl h
  | cons parts candidates ih =>
    rw [List.foldl_cons] at h
    rcases ih h with h | h
    · rw [take_eq] at h
      split at h
      · rcases List.mem_append.1 h with h | h
        · exact .inl h
        · exact .inr (List.mem_singleton.1 h ▸ List.mem_cons_self)
      · exact .inl h
    · exact .inr (List.mem_cons_of_mem _ h)

/-- What is taken can be assembled at any time. -/
theorem isOk_take {taken : List FixParts} (h : (Patch.assemble s taken).isOk = true)
    (parts : FixParts) : (Patch.assemble s (take s taken parts)).isOk = true := by
  rw [take_eq]
  split
  next hok => exact hok
  next => exact h

/-- What is taken can always be put together. -/
private theorem isOk_foldl_take {taken : List FixParts} (h : (Patch.assemble s taken).isOk = true)
    (candidates : List FixParts) :
    (Patch.assemble s (candidates.foldl (take s) taken)).isOk = true := by
  induction candidates generalizing taken with
  | nil => exact h
  | cons parts candidates ih =>
    rw [List.foldl_cons]
    exact ih (isOk_take h parts)

/-- What is not taken could not be assembled with what was taken before it. -/
theorem exists_prefix_of_not_mem {taken candidates : List FixParts}
    (h : (Patch.assemble s taken).isOk = true) {x : FixParts} (hx : x ∈ candidates)
    (hnot : x ∉ candidates.foldl (take s) taken) :
    ∃ earlier, earlier <+: candidates.foldl (take s) taken ∧
      (Patch.assemble s earlier).isOk = true ∧
      (Patch.assemble s (earlier ++ [x])).isOk = false := by
  induction candidates generalizing taken with
  | nil => simp at hx
  | cons parts candidates ih =>
    rw [List.foldl_cons] at hnot ⊢
    rcases List.mem_cons.1 hx with rfl | hx
    · refine ⟨taken, (prefix_take s taken x).trans (prefix_foldl_take s _ candidates), h, ?_⟩
      rw [Bool.eq_false_iff]
      intro hok
      refine hnot ((prefix_foldl_take s (take s taken x) candidates).subset ?_)
      rw [take_eq, if_pos hok]
      exact List.mem_append_right _ List.mem_cons_self
    · exact ih (isOk_take h parts) hx hnot

/-- The first suggestion of a finding is selected. -/
def Selected (s : Source) (findings : List Finding) (f : Finding) : Prop :=
  f ∈ findings ∧ ∃ x, f.suggestions.head? = some x ∧ x.parts ∈ select s findings

/-- Selected parts are those of findings with their first suggestions. -/
theorem exists_choice {parts : List FixParts}
    (h : ∀ x ∈ parts, x ∈ findings.filterMap firstParts?) :
    ∃ chosen : List (Finding × Suggestion), chosenParts chosen = parts ∧
      ∀ c ∈ chosen, c.1 ∈ findings ∧ c.1.suggestions.head? = some c.2 := by
  induction parts with
  | nil => exact ⟨[], rfl, by simp⟩
  | cons x parts ih =>
    obtain ⟨chosen, rfl, hchosen⟩ := ih fun y hy => h y (List.mem_cons_of_mem _ hy)
    obtain ⟨f, hf, hfirst⟩ := List.mem_filterMap.1 (h x List.mem_cons_self)
    obtain ⟨y, hy, rfl⟩ := Option.map_eq_some_iff.1 hfirst
    refine ⟨(f, y) :: chosen, rfl, ?_⟩
    intro c hc
    rcases List.mem_cons.1 hc with rfl | hc
    · exact ⟨hf, hy⟩
    · exact hchosen c hc

/-- What the selection of a pass is like. -/
structure SelectsWell (o : Options) (s : Source) (findings : List Finding) : Prop where
  /-- The selected fixes can be assembled. -/
  assembles : (Patch.assemble s (select s findings)).isOk = true
  /-- A finding that is left out is nested with a selected one, or one of them lies in an import
  declaration that its fix rewrites together with some that are selected before. -/
  maximal : ∀ f ∈ findings, ∀ x, f.suggestions.head? = some x → x.parts ∉ select s findings →
    (∃ g, Selected s findings g ∧ (g.Contains f ∨ f.Contains g)) ∨
      ∃ earlier, earlier <+: select s findings ∧ ∃ n ∈ s.root.children,
        n.is .importStatement = true ∧ (n.start, n.stop) ∈ Patch.rewritten (earlier ++ [x.parts]) ∧
          (f.LiesIn (n.start, n.stop) ∨ ∃ g, Selected s findings g ∧ g.LiesIn (n.start, n.stop))
  /-- Without sites in import declarations, a finding that is left out is nested with a selected
  one. -/
  nested : s.ImportsHoldNoSite o → ∀ f ∈ findings, ∀ x, f.suggestions.head? = some x →
    x.parts ∉ select s findings → ∃ g, Selected s findings g ∧ (g.Contains f ∨ f.Contains g)
  /-- Nothing is selected only if there is nothing to select. -/
  nonempty : select s findings = [] → ∀ f ∈ findings, f.suggestions = []

section

variable {m : Type → Type} [Monad m] [LawfulMonad m] [MonadExceptOf Failure m] [MonadAttach m]
variable [LawfulMonadAttach m] [LawfulFailure m]
variable {a : Analysis m}

private theorem isOk_assemble_nil (s : Source) : (Patch.assemble s []).isOk = true := rfl

/-- A fix takes the first suggestion of a finding. -/
private theorem mem_firstParts_of_mem_select {x : FixParts} (h : x ∈ select s findings) :
    x ∈ findings.filterMap firstParts? :=
  (mem_of_mem_foldl_take h).resolve_left List.not_mem_nil

/-- A finding is left out because of a selected one that it is nested with, or because of an import
declaration. -/
theorem maximal_of_findings (hindex : a.planner.main.IsOf a.source)
    (h : CanReturn a.findings findings) {f : Finding} (hf : f ∈ findings) {x : Suggestion}
    (hx : f.suggestions.head? = some x) (hnot : x.parts ∉ select a.source findings) :
    (∃ g, Selected a.source findings g ∧ (g.Contains f ∨ f.Contains g)) ∨
      ∃ earlier, earlier <+: select a.source findings ∧ ∃ n ∈ a.source.root.children,
        n.is .importStatement = true ∧ (n.start, n.stop) ∈ Patch.rewritten (earlier ++ [x.parts]) ∧
          (f.LiesIn (n.start, n.stop) ∨
            ∃ g, Selected a.source findings g ∧ g.LiesIn (n.start, n.stop)) := by
  have hmem : x.parts ∈ findings.filterMap firstParts? :=
    List.mem_filterMap.2 ⟨f, hf, by rw [firstParts?, hx, Option.map_some]⟩
  obtain ⟨earlier, hinit, hok, hfails⟩ :=
    exists_prefix_of_not_mem (isOk_assemble_nil a.source) hmem hnot
  have hfirst : ∀ y ∈ earlier, y ∈ findings.filterMap firstParts? :=
    fun y hy => mem_firstParts_of_mem_select (hinit.subset hy)
  obtain ⟨chosen, rfl, hchosen⟩ := exists_choice hfirst
  have hselected {c : Finding × Suggestion} (hc : c ∈ chosen) : Selected a.source findings c.1 :=
    ⟨(hchosen c hc).1, c.2, (hchosen c hc).2, hinit.subset (List.mem_map_of_mem hc)⟩
  have hall : ∀ c ∈ chosen ++ [(f, x)], c.1 ∈ findings ∧ c.1.suggestions.head? = some c.2 := by
    intro c hc
    rcases List.mem_append.1 hc with hc | hc
    · exact hchosen c hc
    · rw [List.mem_singleton.1 hc]
      exact ⟨hf, hx⟩
  have hparts : chosenParts chosen ++ [x.parts] = chosenParts (chosen ++ [(f, x)]) := by
    rw [chosenParts, chosenParts, List.map_append, List.map_singleton]
  obtain ⟨hiff, hstatement⟩ :=
    Analysis.isOk_assemble_chosenParts_iff hindex h (isChoice_of_head? hall)
  -- Those taken before are not nested with each other, as they can be assembled.
  have hbefore := ((Analysis.isOk_assemble_chosenParts_iff hindex h
    (isChoice_of_head? hchosen)).1.1 hok).1
  rw [hparts, Bool.eq_false_iff] at hfails
  by_cases hnested : ∃ g, Selected a.source findings g ∧ (g.Contains f ∨ f.Contains g)
  · exact .inl hnested
  · refine .inr ⟨chosenParts chosen, hinit, ?_⟩
    by_contra hfree
    refine hfails (hiff.2 ⟨?_, ?_⟩)
    · intro c hc d hd hne hcontains
      rcases List.mem_append.1 hc with hc | hc <;> rcases List.mem_append.1 hd with hd | hd
      · exact hbefore c hc d hd hne hcontains
      · rw [List.mem_singleton.1 hd] at hcontains
        exact hnested ⟨c.1, hselected hc, .inl hcontains⟩
      · rw [List.mem_singleton.1 hc] at hcontains
        exact hnested ⟨d.1, hselected hd, .inr hcontains⟩
      · rw [List.mem_singleton.1 hc, List.mem_singleton.1 hd] at hne
        exact hne rfl
    · intro c hc span hspan hlie
      obtain ⟨n, hn, his, rfl⟩ := hstatement span hspan
      refine hfree ⟨n, hn, his, hparts ▸ hspan, ?_⟩
      rcases List.mem_append.1 hc with hc | hc
      · exact .inr ⟨c.1, hselected hc, hlie⟩
      · rw [List.mem_singleton.1 hc] at hlie
        exact .inl hlie

/-- Every pass selects well. -/
theorem selectsWell_of_findings (hindex : a.planner.main.IsOf a.source)
    (h : CanReturn a.findings findings) : SelectsWell a.options a.source findings where
  assembles := isOk_foldl_take (isOk_assemble_nil a.source) _
  maximal f hf x hx hnot := maximal_of_findings hindex h hf hx hnot
  nested hfree f hf x hx hnot := by
    rcases maximal_of_findings hindex h hf hx hnot with hnested | ⟨-, -, n, hn, his, -, hlie⟩
    · exact hnested
    · obtain ⟨g, hg, hlie⟩ : ∃ g ∈ findings, g.LiesIn (n.start, n.stop) := by
        rcases hlie with hlie | ⟨g, hg, hlie⟩
        · exact ⟨f, hf, hlie⟩
        · exact ⟨g, hg.1, hlie⟩
      obtain ⟨site, hmem, sites, hreports⟩ :=
        Analysis.exists_site_of_mem_findings hindex h hg
      rw [Finding.LiesIn, hreports.start, hreports.stop] at hlie
      exact absurd hlie (hfree site hmem n hn his)
  nonempty hnone f hf := by
    cases hx : f.suggestions with
    | nil => rfl
    | cons x rest =>
      have hhead : f.suggestions.head? = some x := by rw [hx, List.head?_cons]
      have hmem : x.parts ∈ findings.filterMap firstParts? :=
        List.mem_filterMap.2 ⟨f, hf, by rw [firstParts?, hhead, Option.map_some]⟩
      have hnot : x.parts ∉ select a.source findings := by simp [hnone]
      obtain ⟨earlier, hinit, -, hfails⟩ :=
        exists_prefix_of_not_mem (isOk_assemble_nil a.source) hmem hnot
      -- Alone, the suggestion was assembled when it was made.
      obtain rfl : earlier = [] := List.prefix_nil.1 (hnone ▸ hinit)
      obtain ⟨site, -, sites, hreports⟩ := Analysis.exists_site_of_mem_findings hindex h hf
      have hassembled := (hreports.suggestions x (List.mem_of_head? hhead)).assembled
      rw [List.nil_append, hassembled] at hfails
      cases hfails

end

end Fix

end StableProps

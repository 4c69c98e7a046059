import StableProps.Proofs.Distinct
import StableProps.Proofs.Lift.Choice
import StableProps.Proofs.Patch.NormalForm

/-!
# Constants that sites share

A pass makes a constant when it meets a text for the first time, and gives it a name that it has
given to nothing else. From then on the constant stands under its text, whatever else the pass
does. So sites with one text share a constant, and texts that differ have constants of different
names. When the suggestions of several sites are put together, the declaration of a constant that
they share is inserted once.
-/

namespace StableProps

open MonadAttach (CanReturn)

namespace Patch

/-- What edits insert: at every offset the texts of the insertions there, each text once. -/
def InsertsOnce (edits : List Edit) (insertions : List Insertion) : Prop :=
  ∀ p, ∃ texts : List String, texts.Nodup ∧ edits.filter (Edit.insertsAt p) = joinedAt p texts ∧
    ∀ text, text ∈ texts ↔ ∃ i ∈ insertions, i.offset = p ∧ i.text = text

/-- Different plain insertions at one offset have different texts. -/
theorem nodup_map_text_plainAt (p : Nat) (l : List Insertion) :
    ((plainAt p (distinct l)).map (·.text)).Nodup := by
  have hnodup : (plainAt p (distinct l)).Nodup := (nodup_distinct l).filter _
  refine hnodup.map_on ?_
  intro i hi j hj htext
  obtain ⟨hwrap, hoffset⟩ := Bool.and_eq_true_iff.1 (List.mem_filter.1 hi).2
  obtain ⟨hwrap', hoffset'⟩ := Bool.and_eq_true_iff.1 (List.mem_filter.1 hj).2
  rw [Option.isNone_iff_eq_none] at hwrap hwrap'
  cases i
  cases j
  simp_all

/-- Plain insertions are inserted once, if nothing empty is replaced. -/
theorem insertsOnce_edits {s : Source} {parts : List FixParts}
    (hreplaced : ∀ r ∈ replacements parts, r.start < r.stop)
    (hplain : ∀ i ∈ insertions s parts, i.wrap = none) :
    InsertsOnce (edits s parts) (insertions s parts) := by
  intro p
  have hreplacements : insertedAt p (distinct (replacements parts)) = [] := by
    rw [insertedAt, List.map_eq_nil_iff, List.filter_eq_nil_iff]
    intro r hr hinserts
    have hlt := hreplaced r (mem_distinct.1 hr)
    rw [Edit.insertsAt_iff] at hinserts
    omega
  have hblocks : blocks (distinct (insertions s parts)) = [] := by
    have hwraps : (distinct (insertions s parts)).filterMap (·.wrap) = [] :=
      List.filterMap_eq_nil_iff.2 fun i hi => hplain i (mem_distinct.1 hi)
    rw [blocks, hwraps]
    rfl
  refine ⟨(plainAt p (distinct (insertions s parts))).map (·.text), nodup_map_text_plainAt p _, ?_,
    ?_⟩
  · rw [filter_insertsAt_edits, textsAt, hreplacements, hblocks]
    rfl
  · intro text
    rw [List.mem_map]
    refine exists_congr fun i => ?_
    rw [plainAt, List.mem_filter, mem_distinct, and_assoc]
    refine and_congr_right fun hi => ?_
    simp [hplain i hi]

end Patch

namespace Source

/-- New declarations of the module go in front of no expression that becomes a block. -/
theorem wrap_constantInsertion (s : Source) (declaration : String) (position : Position) :
    (s.constantInsertion declaration position).wrap = none := by
  cases position with
  | start =>
    rw [constantInsertion]
    split <;> rfl
  | «end» => rfl

private theorem wrap_importInsertion (s : Source) (statement : String) :
    (s.importInsertion statement).wrap = none := by
  rw [importInsertion]
  split <;> rfl

end Source

namespace Analysis

section

variable {m : Type → Type}

/-- A declaration of a constant at the place that the options name. -/
def Declares (a : Analysis m) (name : String) (i : Insertion) : Prop :=
  ∃ annotated value, i = a.source.constantInsertion
    (Declaration.constant name annotated value) a.options.position

/-- The constants of a pass are in order: each is declared under its name, which the pass has given
to it alone. -/
structure Orderly (a : Analysis m) (pass : Pass) : Prop where
  given : ∀ text c, pass.constants.lookup text = some c → c.name ∈ pass.names
  declares : ∀ text c, pass.constants.lookup text = some c → a.Declares c.name c.insertion
  apart : ∀ text c text' c', pass.constants.lookup text = some c →
    pass.constants.lookup text' = some c' → c.name = c'.name → text = text'

/-- How a pass goes on: constants stay under their texts, and stay in order. -/
structure GoesOn (a : Analysis m) (pass pass' : Pass) : Prop where
  keeps : ∀ text c, pass.constants.lookup text = some c → pass'.constants.lookup text = some c
  orderly : a.Orderly pass → a.Orderly pass'

/-- A draft keeps the value of a site by a constant: one that the module has, or else the one that
the pass has under the text of the value. -/
inductive KeepsByConstant (a : Analysis m) (pass : Pass) (s : Site) : Draft → Prop where
  | existing {name : String}
      (known : a.source.constants.lookup s.expression.node.text = some name) :
      KeepsByConstant a pass s
        { name, keeping := .constant, parts := { replacements := [replacement s name] } }
  | made {c : NewConstant}
      (unknown : a.source.constants.lookup s.expression.node.text = none)
      (known : pass.constants.lookup s.expression.node.text = some c) :
      KeepsByConstant a pass s
        { name := c.name, keeping := .constant
          parts := {
            replacements := [replacement s c.name]
            insertions := [c.insertion]
            imports := c.imports } }

variable {a : Analysis m} {s t : Site} {pass pass' pass'' : Pass}

theorem GoesOn.refl (a : Analysis m) (pass : Pass) : a.GoesOn pass pass :=
  ⟨fun _ _ h => h, fun h => h⟩

theorem GoesOn.trans (h : a.GoesOn pass pass') (h' : a.GoesOn pass' pass'') :
    a.GoesOn pass pass'' :=
  ⟨fun text c hc => h'.keeps text c (h.keeps text c hc), fun ho => h'.orderly (h.orderly ho)⟩

private theorem orderly_empty (a : Analysis m) : a.Orderly {} := by
  constructor <;> simp

/-- A name that is given is none of those given before. -/
theorem newName_not_mem_names (strategy : Strategy) :
    (a.newName s strategy pass).1 ∉ pass.names := by
  intro h
  exact FreshName.choose_not_mem _ _ (List.mem_append_right _ h)

/-- Giving a name touches no constant. -/
theorem goesOn_newName (strategy : Strategy) : a.GoesOn pass (a.newName s strategy pass).2 where
  keeps _ _ h := h
  orderly h :=
    { given := fun text c hc => List.mem_cons_of_mem _ (h.given text c hc)
      declares := h.declares
      apart := h.apart }

/-- A constant of a new name is added under a text that has none. -/
theorem goesOn_of_cons {text : String} {c : NewConstant}
    (hconstants : pass'.constants = (text, c) :: pass.constants)
    (hnames : pass'.names = c.name :: pass.names) (hnone : pass.constants.lookup text = none)
    (hnew : c.name ∉ pass.names) (hdeclares : a.Declares c.name c.insertion) :
    a.GoesOn pass pass' := by
  have hlookup {t : String} {d : NewConstant} (h : pass'.constants.lookup t = some d) :
      t = text ∧ d = c ∨ pass.constants.lookup t = some d := by
    rw [hconstants, List.lookup_cons] at h
    split at h
    next heq => exact .inl ⟨eq_of_beq heq, (Option.some.inj h).symm⟩
    next => exact .inr h
  constructor
  · intro t d hd
    have hne : (t == text) = false := by
      rw [beq_eq_false_iff_ne]
      rintro rfl
      rw [hnone] at hd
      cases hd
    rw [hconstants, List.lookup_cons, hne]
    exact hd
  · intro h
    constructor
    · intro t d hd
      rw [hnames]
      rcases hlookup hd with ⟨-, rfl⟩ | hold
      · exact List.mem_cons_self
      · exact List.mem_cons_of_mem _ (h.given t d hold)
    · intro t d hd
      rcases hlookup hd with ⟨-, rfl⟩ | hold
      · exact hdeclares
      · exact h.declares t d hold
    · intro t d t' d' hd hd' heq
      rcases hlookup hd with ⟨ht, rfl⟩ | hold <;> rcases hlookup hd' with ⟨ht', rfl⟩ | hold'
      · exact ht.trans ht'.symm
      · exact absurd (heq ▸ h.given t' d' hold') hnew
      · exact absurd (heq ▸ h.given t d hold) hnew
      · exact h.apart t d t' d' hold hold' heq

theorem KeepsByConstant.mono {d : Draft} (h : a.KeepsByConstant pass s d)
    (hpass : a.GoesOn pass pass') : a.KeepsByConstant pass' s d := by
  cases h with
  | existing known => exact .existing known
  | made unknown known => exact .made unknown (hpass.keeps _ _ known)

/-- Sites with one text have one constant, with all that comes with it. -/
theorem KeepsByConstant.same {d e : Draft} (hd : a.KeepsByConstant pass s d)
    (he : a.KeepsByConstant pass t e)
    (htext : s.expression.node.text = t.expression.node.text) :
    d.name = e.name ∧ d.parts.insertions = e.parts.insertions ∧
      d.parts.imports = e.parts.imports := by
  cases hd with
  | existing known =>
    rw [htext] at known
    cases he with
    | existing known' =>
      obtain rfl := Option.some.inj (known.symm.trans known')
      exact ⟨rfl, rfl, rfl⟩
    | made unknown' known' => cases known.symm.trans unknown'
  | made unknown known =>
    rw [htext] at unknown known
    cases he with
    | existing known' => cases unknown.symm.trans known'
    | made unknown' known' =>
      obtain rfl := Option.some.inj (known.symm.trans known')
      exact ⟨rfl, rfl, rfl⟩

end

section

variable {m : Type → Type} [Monad m] [MonadExceptOf Failure m] [MonadAttach m]
variable {a : Analysis m} {s : Site} {pass pass' : Pass}

/-- A strategy goes on with the pass, and a constant that it uses stands under the text of its site
from then on. -/
theorem DraftStep.goesOn {references : List Reference} {strategy : Strategy} {found : Option Draft}
    (h : a.DraftStep s references pass strategy found pass') :
    a.GoesOn pass pass' ∧
      ∀ d, found = some d → d.keeping = .constant → a.KeepsByConstant pass' s d := by
  cases h with
  | unplaced unfound => exact ⟨.refl a pass, nofun⟩
  | called found typed planned =>
    refine ⟨goesOn_newName .hook, ?_⟩
    rintro d ⟨⟩ hconstant
    cases hconstant
  | existing known => exact ⟨.refl a pass, by rintro d ⟨⟩ -; exact .existing known⟩
  | remembered unknown known => exact ⟨.refl a pass, by rintro d ⟨⟩ -; exact .made unknown known⟩
  | made unknown unmet typed =>
    refine ⟨goesOn_of_cons rfl rfl unmet (newName_not_mem_names .constant) ⟨_, _, rfl⟩, ?_⟩
    rintro d ⟨⟩ -
    exact .made unknown List.lookup_cons_self

theorem DraftSteps.goesOn {references : List Reference} {strategies : List Strategy}
    {found : List Suggestion} (h : a.DraftSteps s references strategies pass found pass') :
    a.GoesOn pass pass' ∧
      ∀ x ∈ found, x.keeping = .constant → a.KeepsByConstant pass' s x.toDraft := by
  induction h with
  | @nil pass => exact ⟨.refl a pass, by simp⟩
  | @cons strategy rest pass pass₁ pass₂ d first more step drafts edited steps ih =>
    obtain ⟨hpass, hkeeps⟩ := step.goesOn
    obtain ⟨hpass', hrest⟩ := ih
    refine ⟨hpass.trans hpass', ?_⟩
    intro x hx hconstant
    rcases List.mem_append.1 hx with hx | hx
    · have hmem : x.toDraft ∈ d.toList := drafts ▸ List.mem_map_of_mem hx
      exact (hkeeps _ (Option.mem_toList.1 hmem) hconstant).mono hpass'
    · exact hrest x hx hconstant

/-- Every constant that is suggested in a finding is the one of the site at which the finding
starts. -/
def KeepsByConstants (a : Analysis m) (pass : Pass) (s : Site) (f : Finding) : Prop :=
  f.start = s.expression.node.start ∧
    ∀ x ∈ f.suggestions, x.keeping = .constant → a.KeepsByConstant pass s x.toDraft

theorem SiteStep.goesOn {found : Option Finding} (h : a.SiteStep s pass found pass') :
    a.GoesOn pass pass' ∧ ∀ f, found = some f → a.KeepsByConstants pass' s f := by
  cases h with
  | passed blocked => exact ⟨.refl a pass, nofun⟩
  | reported kept steps =>
    obtain ⟨hpass, hkeeps⟩ := steps.goesOn
    refine ⟨hpass, ?_⟩
    rintro f ⟨⟩
    exact ⟨rfl, hkeeps⟩

/-- The constants of all sites are those that stand under their texts at the end. -/
theorem SiteSteps.goesOn {sites : List Site} {findings : List Finding} {last : Pass}
    (h : a.SiteSteps sites pass findings last) :
    a.GoesOn pass last ∧ ∀ f ∈ findings, ∃ s ∈ sites, a.KeepsByConstants last s f := by
  induction h with
  | @nil pass => exact ⟨.refl a pass, by simp⟩
  | @cons s rest pass pass₁ last found more step steps ih =>
    obtain ⟨hpass, hfirst⟩ := step.goesOn
    obtain ⟨hlast, hrest⟩ := ih
    refine ⟨hpass.trans hlast, ?_⟩
    intro f hf
    rcases List.mem_append.1 hf with hf | hf
    · obtain ⟨hstart, hkeeps⟩ := hfirst f (Option.mem_toList.1 hf)
      exact ⟨s, List.mem_cons_self, hstart, fun x hx hc => (hkeeps x hx hc).mono hlast⟩
    · obtain ⟨t, ht, hkeeps⟩ := hrest f hf
      exact ⟨t, List.mem_cons_of_mem _ ht, hkeeps⟩

end

end Analysis

/-- A constant that a pass suggests for the value of a site. -/
structure SuggestsConstant (source : Source) (o : Options) (findings : List Finding) (s : Site)
    (x : Suggestion) : Prop where
  site : s ∈ Site.all source o (IgnoreList.ofEntries o.ignored)
  found : ∃ f ∈ findings, f.start = s.expression.node.start ∧ x ∈ f.suggestions
  keeping : x.keeping = .constant

/-- Sites share constants by the texts of their values. -/
structure SharesConstants (source : Source) (o : Options) (findings : List Finding) : Prop where
  /-- Every constant is suggested for a site. -/
  sites : ∀ f ∈ findings, ∀ x ∈ f.suggestions, x.keeping = .constant →
    ∃ s, SuggestsConstant source o findings s x
  /-- A constant that the module has for a text is used again, and nothing is inserted; otherwise a
  declaration of the constant is. -/
  declared : ∀ s x, SuggestsConstant source o findings s x →
    source.constants.lookup s.expression.node.text = some x.name ∧ x.parts.insertions = [] ∨
      source.constants.lookup s.expression.node.text = none ∧
        ∃ annotated value, x.parts.insertions = [source.constantInsertion
          (Declaration.constant x.name annotated value) o.position]
  /-- One text has one constant. -/
  same : ∀ s x t y, SuggestsConstant source o findings s x → SuggestsConstant source o findings t y →
    s.expression.node.text = t.expression.node.text →
      x.name = y.name ∧ x.parts.insertions = y.parts.insertions ∧ x.parts.imports = y.parts.imports
  /-- New constants for different texts have different names. -/
  apart : ∀ s x t y, SuggestsConstant source o findings s x →
    SuggestsConstant source o findings t y → s.expression.node.text ≠ t.expression.node.text →
      x.parts.insertions ≠ [] → y.parts.insertions ≠ [] → x.name ≠ y.name

variable {m : Type → Type} [Monad m] [LawfulMonad m] [MonadExceptOf Failure m] [MonadAttach m]
variable [LawfulMonadAttach m]

namespace Analysis

variable {a : Analysis m} {findings : List Finding}

/-- All constants of a pass are those that it has at its end, where they are in order. -/
theorem exists_orderly_of_findings (h : CanReturn a.findings findings) :
    ∃ last, a.Orderly last ∧
      (∀ f ∈ findings, ∃ s ∈ a.allSites, a.KeepsByConstants last s f) ∧
      ∀ s x, SuggestsConstant a.source a.options findings s x →
        a.KeepsByConstant last s x.toDraft := by
  obtain ⟨last, hsteps⟩ := exists_siteSteps_of_analyzeSites h
  obtain ⟨hlast, hkeeps⟩ := hsteps.goesOn
  refine ⟨last, hlast.orderly (orderly_empty a), hkeeps, ?_⟩
  rintro s x ⟨hs, ⟨f, hf, hstart, hx⟩, hconstant⟩
  obtain ⟨t, ht, hstart', hkeeps⟩ := hkeeps f hf
  have hnodup : (a.allSites.map (·.expression.node.start)).Nodup :=
    List.pairwise_map.2 (Site.pairwise_all _ _ _)
  obtain rfl : s = t := List.inj_on_of_nodup_map hnodup hs ht (hstart.symm.trans hstart')
  exact hkeeps x hx hconstant

private theorem sharesConstants_of_findings (h : CanReturn a.findings findings) :
    SharesConstants a.source a.options findings := by
  obtain ⟨last, horderly, hfound, hkeeps⟩ := exists_orderly_of_findings h
  constructor
  · intro f hf x hx hconstant
    obtain ⟨s, hs, hstart, -⟩ := hfound f hf
    exact ⟨s, hs, ⟨f, hf, hstart, hx⟩, hconstant⟩
  · intro s x hx
    obtain ⟨⟨name, keeping, parts⟩, edits⟩ := x
    cases hkeeps s _ hx with
    | existing known => exact .inl ⟨known, rfl⟩
    | made unknown known =>
      obtain ⟨annotated, value, hdeclares⟩ := horderly.declares _ _ known
      exact .inr ⟨unknown, annotated, value, congrArg (fun i => [i]) hdeclares⟩
  · intro s x t y hx hy htext
    exact (hkeeps s x hx).same (hkeeps t y hy) htext
  · intro s x t y hx hy htext hnew hnew' hname
    obtain ⟨⟨name, keeping, parts⟩, edits⟩ := x
    obtain ⟨⟨name', keeping', parts'⟩, edits'⟩ := y
    cases hkeeps s _ hx with
    | existing known => exact hnew rfl
    | made unknown known =>
      cases hkeeps t _ hy with
      | existing known' => exact hnew' rfl
      | made unknown' known' => exact htext (horderly.apart _ _ _ _ known known' hname)

/-- Constants are inserted as declarations of the module. -/
theorem wrap_eq_none_of_constants (h : CanReturn a.findings findings)
    {chosen : List (Finding × Suggestion)} (hchosen : IsChoice findings chosen)
    (hconstant : ∀ c ∈ chosen, c.2.keeping = .constant) {i : Insertion}
    (hi : i ∈ Patch.insertions a.source (chosenParts chosen)) : i.wrap = none := by
  have hshares := sharesConstants_of_findings h
  rcases List.mem_append.1 hi with hi | hi
  · obtain ⟨e, -, he⟩ := List.mem_filterMap.1 hi
    rw [Patch.importInsertion?] at he
    split at he
    · cases he
    · obtain rfl := Option.some.inj he
      exact a.source.wrap_importInsertion _
  · obtain ⟨parts, hparts, hi⟩ := List.mem_flatMap.1 hi
    obtain ⟨c, hc, rfl⟩ := List.mem_map.1 hparts
    obtain ⟨hf, hx⟩ := hchosen.of_pass c hc
    obtain ⟨s, hs⟩ := hshares.sites c.1 hf c.2 hx (hconstant c hc)
    rcases hshares.declared s c.2 hs with ⟨-, hnone⟩ | ⟨-, annotated, value, hdeclares⟩
    · rw [hnone] at hi
      cases hi
    · rw [hdeclares] at hi
      rw [List.mem_singleton.1 hi]
      exact a.source.wrap_constantInsertion _ _

end Analysis

variable [LawfulFailure m]

/-- Sites of a pass with one text get one constant, and new constants for different texts get
different names. Constants for values of which none contains another one can be put together
exactly if none of the values lies in an import declaration that has to be rewritten; then every
declaration is inserted once, whatever number of sites share it. -/
theorem Workspace.sharesConstants_insertsOnce (w : Workspace m) (o : Options) (source : Source)
    (findings : List Finding) (h : CanReturn (w.findings o source) findings) :
    SharesConstants source o findings ∧
      ∀ chosen, IsChoice findings chosen → (∀ c ∈ chosen, c.2.keeping = .constant) →
        (∀ c ∈ chosen, ∀ d ∈ chosen, c.1 ≠ d.1 → ¬c.1.Contains d.1) →
          ((Patch.assemble source (chosenParts chosen)).isOk = true ↔
            ∀ c ∈ chosen, ∀ span ∈ Patch.rewritten (chosenParts chosen), ¬c.1.LiesIn span) ∧
          ∀ edits, Patch.assemble source (chosenParts chosen) = .ok edits →
            Patch.InsertsOnce edits (Patch.insertions source (chosenParts chosen)) := by
  obtain ⟨a, rfl, rfl, hindex, hfindings⟩ := exists_analysis h
  refine ⟨Analysis.sharesConstants_of_findings hfindings, ?_⟩
  intro chosen hchosen hconstant hnested
  constructor
  · have hiff := (Analysis.isOk_assemble_chosenParts_iff hindex hfindings hchosen).1
    rwa [and_iff_right hnested] at hiff
  · intro edits hedits
    obtain rfl := Patch.eq_edits_of_assemble hedits
    refine Patch.insertsOnce_edits ?_ ?_
    · intro r hr
      exact Analysis.start_lt_stop_of_chosen hindex hfindings hchosen hr
    · intro i hi
      exact Analysis.wrap_eq_none_of_constants hfindings hchosen hconstant hi

/-- A module with a component in its import declaration and one behind it, the constant of which is
annotated with a type that the declaration does not import yet. -/
def constantInImport : Source :=
  .parsed (FileTree.resolve (.ofText "a.tsx")) .tsx
    ("import \x7b A \x7d from './b' with \x7b x: () => <B c=\x7b[1]\x7d /> \x7d;\n" ++
      "const C = () => <A b=\x7b[2]\x7d />;\n")

/-- The module of the annotated component. -/
def annotatingFiles : FileTree :=
  FileTree.empty.write (.ofText "b.tsx")
    ("export type T = number[];\n" ++
      "export function A(props: \x7b b: T \x7d) \x7b return null; \x7d\n")

set_option maxRecDepth 100000 in
private theorem findings_constantInImport :
    ∃ findings, (Workspace.fresh ⟨annotatingFiles, none⟩).findings {} constantInImport =
        .ok findings ∧
      ∃ f ∈ findings, ∃ x, f.suggestions.head? = some x ∧ x.keeping = .constant ∧
        ∃ g ∈ findings, ∃ y, g.suggestions.head? = some y ∧ y.keeping = .constant ∧
          (¬f.Contains g ∧ ¬g.Contains f) ∧
            (∃ span ∈ Patch.rewritten (chosenParts [(f, x), (g, y)]), f.LiesIn span) ∧
              (Patch.assemble constantInImport (chosenParts [(f, x), (g, y)])).isOk = false := by
  decide +kernel

/-- The constants of the module are a choice whose values do not contain each other. One of them
lies in the declaration that the other one needs, and they cannot be put together. -/
theorem exists_choice_constantInImport :
    ∃ findings, (Workspace.fresh ⟨annotatingFiles, none⟩).findings {} constantInImport =
        .ok findings ∧
      ∃ chosen, IsChoice findings chosen ∧ (∀ c ∈ chosen, c.2.keeping = .constant) ∧
        (∀ c ∈ chosen, ∀ d ∈ chosen, c.1 ≠ d.1 → ¬c.1.Contains d.1) ∧
          (∃ c ∈ chosen, ∃ span ∈ Patch.rewritten (chosenParts chosen), c.1.LiesIn span) ∧
            (Patch.assemble constantInImport (chosenParts chosen)).isOk = false := by
  obtain ⟨findings, hfindings, f, hf, x, hx, hxc, g, hg, y, hy, hyc, hapart, hlies, hok⟩ :=
    findings_constantInImport
  refine ⟨findings, hfindings, [(f, x), (g, y)], ?_, ?_, ?_, ?_, hok⟩
  · refine isChoice_of_head? ?_
    simp [hf, hx, hg, hy]
  · simp [hxc, hyc]
  · simp [hapart]
  · exact ⟨(f, x), List.mem_cons_self, hlies⟩

/-- The value in the import declaration and the type that the other constant needs get into each
other's way. -/
theorem Workspace.not_isOk_assemble_constantInImport :
    ∃ findings, (fresh ⟨annotatingFiles, none⟩).findings {} constantInImport = .ok findings ∧
      ∃ chosen, IsChoice findings chosen ∧ (∀ c ∈ chosen, c.2.keeping = .constant) ∧
        (∀ c ∈ chosen, ∀ d ∈ chosen, c.1 ≠ d.1 → ¬c.1.Contains d.1) ∧
          ¬(Patch.assemble constantInImport (chosenParts chosen)).isOk = true := by
  obtain ⟨findings, hfindings, chosen, hchosen, hconstant, hnested, ⟨c, hc, span, hspan, hlie⟩, -⟩ :=
    exists_choice_constantInImport
  refine ⟨findings, hfindings, chosen, hchosen, hconstant, hnested, fun hok => ?_⟩
  have hassemble := (sharesConstants_insertsOnce (fresh ⟨annotatingFiles, none⟩) {}
    constantInImport findings hfindings).2 chosen hchosen hconstant hnested
  exact hassemble.1.1 hok c hc span hspan hlie

/-- Constants for values of which none contains another one cannot always be put together. -/
theorem Workspace.not_forall_isOk_assemble_constants :
    ¬∀ (tree : FileTree) (source : Source) (findings : List Finding),
      (fresh ⟨tree, none⟩).findings {} source = .ok findings →
        ∀ chosen, IsChoice findings chosen → (∀ c ∈ chosen, c.2.keeping = .constant) →
          (∀ c ∈ chosen, ∀ d ∈ chosen, c.1 ≠ d.1 → ¬c.1.Contains d.1) →
            (Patch.assemble source (chosenParts chosen)).isOk = true := by
  intro hall
  obtain ⟨findings, hfindings, chosen, hchosen, hconstant, hnested, -, hnot⟩ :=
    exists_choice_constantInImport
  have hok := hall annotatingFiles constantInImport findings hfindings chosen hchosen hconstant
    hnested
  rw [hnot] at hok
  cases hok

end StableProps

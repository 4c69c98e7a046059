import StableProps.Proofs.Lift.Pass

/-!
# Fixes that can be assembled together

The replacements of several fixes are values of sites and import declarations that have to be
rewritten. Insertions never fall strictly inside a value. They fall strictly inside an import
declaration only if the component they are made for lies in it, and with it the value. So drafts for
different values can be assembled exactly if no value covers another one and none of them lies in a
declaration that is rewritten.
-/

namespace StableProps

open MonadAttach (CanReturn)

/-- The ranges of the import declarations that fixes rewrite. -/
def Patch.rewritten (parts : List FixParts) : List (Nat × Nat) :=
  (changedEntries parts).filterMap (·.span)

namespace Patch

variable {parts : List FixParts}

private theorem mem_rewritten_iff {span : Nat × Nat} :
    span ∈ rewritten parts ↔ ∃ e ∈ changedEntries parts, e.span = some span := by
  simp [rewritten]

private theorem mem_replacements_iff {r : Edit} :
    r ∈ replacements parts ↔
      (∃ e ∈ changedEntries parts, importReplacement? e = some r) ∨
        ∃ x ∈ parts, r ∈ x.replacements := by
  simp [replacements]

private theorem span_of_importReplacement? {e : ImportEntry} {r : Edit}
    (h : importReplacement? e = some r) : e.span = some (r.start, r.stop) := by
  obtain ⟨⟨start, stop⟩, hspan, rfl⟩ := Option.map_eq_some_iff.1 h
  exact hspan

/-- An insertion is that of a new import or belongs to one of the parts. -/
theorem of_mem_insertions {s : Source} {i : Insertion} (h : i ∈ insertions s parts) :
    (∀ p ∈ i.offsets, s.IsModuleOffset p) ∨ ∃ x ∈ parts, i ∈ x.insertions := by
  rcases List.mem_append.1 h with h | h
  · obtain ⟨e, -, he⟩ := List.mem_filterMap.1 h
    rw [importInsertion?] at he
    split at he
    · cases he
    · obtain rfl := Option.some.inj he
      exact .inl fun p hp => Source.isModuleOffset_importInsertion _ hp
  · exact .inr (List.mem_flatMap.1 h)

end Patch

/-- The range of an import declaration holds a value. -/
def Site.LiesIn (s : Site) (span : Nat × Nat) : Prop :=
  span.1 ≤ s.expression.node.start ∧ s.expression.node.stop ≤ span.2

namespace Analysis

variable {m : Type → Type} [Monad m] [MonadExceptOf Failure m] [MonadAttach m]
variable {a : Analysis m} {ds : List (Site × Draft)}

/-- Drafts with the sites that they are made for, one for a value. -/
structure Places (a : Analysis m) (ds : List (Site × Draft)) : Prop where
  index : a.planner.main.IsOf a.source
  stands : ∀ x ∈ ds, x.1.StandsIn a.source.root
  drafts : ∀ x ∈ ds, ∃ sites, a.Drafts sites x.1 x.2
  one : ∀ x ∈ ds, ∀ y ∈ ds, x.1.expression = y.1.expression → x = y

/-- The parts of several drafts. -/
def partsOf (ds : List (Site × Draft)) : List FixParts := ds.map (·.2.parts)

namespace Places

/-- A changed import belongs to the file. -/
theorem belongs (h : a.Places ds) {e : ImportEntry}
    (he : e ∈ Patch.changedEntries (partsOf ds)) : e.Belongs a.planner.main.imports := by
  refine Patch.belongs_of_mem_mergeEntries ?_ (List.mem_filter.1 he).1
  intro e he
  obtain ⟨parts, hparts, he⟩ := List.mem_flatMap.1 he
  obtain ⟨x, hx, rfl⟩ := List.mem_map.1 hparts
  obtain ⟨sites, hdrafts⟩ := h.drafts x hx
  exact hdrafts.imports.belongs e he

/-- A rewritten declaration is an import statement at the top of the module. -/
theorem statement_of_mem_rewritten (h : a.Places ds) {span : Nat × Nat}
    (hspan : span ∈ Patch.rewritten (partsOf ds)) :
    ∃ n ∈ a.source.root.children, n.is .importStatement = true ∧ span = (n.start, n.stop) := by
  obtain ⟨e, he, hspan⟩ := Patch.mem_rewritten_iff.1 hspan
  obtain ⟨i, hi, rfl, -⟩ := h.belongs he span hspan
  obtain ⟨n, hn, his, hstart, hstop⟩ := h.index.declared i hi
  exact ⟨n, hn, his, by rw [hstart, hstop]⟩

/-- What is replaced is a rewritten declaration or the value of a site. -/
theorem of_mem_replacements (h : a.Places ds) {r : Edit}
    (hr : r ∈ Patch.replacements (partsOf ds)) :
    (∃ e ∈ Patch.changedEntries (partsOf ds), Patch.importReplacement? e = some r) ∨
      ∃ x ∈ ds, r = replacement x.1 x.2.name := by
  rcases Patch.mem_replacements_iff.1 hr with himport | ⟨parts, hparts, hr⟩
  · exact .inl himport
  · obtain ⟨x, hx, rfl⟩ := List.mem_map.1 hparts
    obtain ⟨sites, hdrafts⟩ := h.drafts x hx
    rw [hdrafts.replaces] at hr
    exact .inr ⟨x, hx, List.mem_singleton.1 hr⟩

private theorem mem_replacements (h : a.Places ds) {x : Site × Draft} (hx : x ∈ ds) :
    replacement x.1 x.2.name ∈ Patch.replacements (partsOf ds) := by
  obtain ⟨sites, hdrafts⟩ := h.drafts x hx
  refine Patch.mem_replacements_iff.2 (.inr ⟨x.2.parts, List.mem_map_of_mem hx, ?_⟩)
  rw [hdrafts.replaces]
  exact List.mem_singleton_self _

private theorem mem_rewritten {e : ImportEntry} {r : Edit}
    (he : e ∈ Patch.changedEntries (partsOf ds)) (hr : Patch.importReplacement? e = some r) :
    (r.start, r.stop) ∈ Patch.rewritten (partsOf ds) :=
  Patch.mem_rewritten_iff.2 ⟨e, he, Patch.span_of_importReplacement? hr⟩

/-- Nothing empty is replaced: declarations and values take up some text. -/
theorem start_lt_stop (h : a.Places ds) {r : Edit} (hr : r ∈ Patch.replacements (partsOf ds)) :
    r.start < r.stop := by
  have hfocus : a.source.focus.IsIn a.source.root := .root
  rcases h.of_mem_replacements hr with ⟨e, he, hr⟩ | ⟨x, hx, rfl⟩
  · obtain ⟨n, hn, -, hspan⟩ := h.statement_of_mem_rewritten (mem_rewritten he hr)
    obtain ⟨hstart, hstop⟩ := Prod.mk.inj hspan
    rw [hstart, hstop]
    exact (hfocus.down hn).start_lt_stop a.source.wellFormed (List.cons_ne_nil _ _)
  · have hs := h.stands x hx
    exact hs.expression_isIn.start_lt_stop a.source.wellFormed hs.above_ne_nil

/-! ## Replacements -/

/-- Rewritten declarations lie apart: one that is met twice would have been merged. -/
theorem apart_imports (h : a.Places ds) {e e' : ImportEntry}
    (he : e ∈ Patch.changedEntries (partsOf ds)) (he' : e' ∈ Patch.changedEntries (partsOf ds))
    {r r' : Edit} (hr : Patch.importReplacement? e = some r)
    (hr' : Patch.importReplacement? e' = some r') (hne : r ≠ r') : r.Apart r' := by
  have hspan := Patch.span_of_importReplacement? hr
  have hspan' := Patch.span_of_importReplacement? hr'
  obtain ⟨i, hi, hi', hkey⟩ := h.belongs he _ hspan
  obtain ⟨j, hj, hj', hkey'⟩ := h.belongs he' _ hspan'
  have hij : i ≠ j := by
    rintro rfl
    have hne' : e ≠ e' := by
      rintro rfl
      exact hne (Option.some.inj (hr.symm.trans hr'))
    have hpairwise := (Patch.pairwise_mergeEntries ((partsOf ds).flatMap (·.imports))).filter
      (·.changesFile)
    have hsymm : Std.Symm fun e f => Patch.mergeKey e ≠ Patch.mergeKey f :=
      ⟨fun _ _ hne => hne.symm⟩
    refine hpairwise.forall he he' hne' ?_
    rw [Patch.mergeKey, Patch.mergeKey, hspan, hspan', hi', hj', hkey, hkey']
  obtain ⟨n, hn, -, hstart, hstop⟩ := h.index.declared i hi
  obtain ⟨k, hk, -, hstart', hstop'⟩ := h.index.declared j hj
  have hnk : n ≠ k := by
    rintro rfl
    exact hij (h.index.range_injective i hi j hj (hstart.trans hstart'.symm))
  have hfocus : a.source.focus.IsIn a.source.root := .root
  have hapart := (hfocus.children_apart a.source.wellFormed hn hk).resolve_left hnk
  obtain ⟨h₁, h₂⟩ := Prod.mk.inj hi'
  obtain ⟨h₃, h₄⟩ := Prod.mk.inj hj'
  rw [Edit.Apart, h₁, h₂, h₃, h₄, hstart, hstop, hstart', hstop']
  exact hapart

/-- A rewritten declaration and a value lie apart, unless the value lies in the declaration. -/
theorem apart_import_iff (h : a.Places ds) {e : ImportEntry}
    (he : e ∈ Patch.changedEntries (partsOf ds)) {r : Edit}
    (hr : Patch.importReplacement? e = some r) {x : Site × Draft} (hx : x ∈ ds) :
    r.Apart (replacement x.1 x.2.name) ↔ ¬x.1.LiesIn (r.start, r.stop) := by
  obtain ⟨n, hn, -, hspan⟩ := h.statement_of_mem_rewritten (mem_rewritten he hr)
  obtain ⟨hstart, hstop⟩ := Prod.mk.inj hspan
  have hs := h.stands x hx
  have hfocus : a.source.focus.IsIn a.source.root := .root
  have hiff := Focus.IsIn.apart_iff a.source.wellFormed (hfocus.down hn) hs.expression_isIn
    (List.cons_ne_nil _ _) hs.above_ne_nil
  rw [Edit.Apart, Site.LiesIn, hstart, hstop]
  exact hiff.trans (and_iff_left (hs.not_covers_statement a.source.wellFormed hn))

/-- Two values lie apart, unless one of them covers the other one. -/
theorem apart_values_iff (h : a.Places ds) {x y : Site × Draft} (hx : x ∈ ds) (hy : y ∈ ds) :
    (replacement x.1 x.2.name).Apart (replacement y.1 y.2.name) ↔
      ¬x.1.expression.Covers y.1.expression ∧ ¬y.1.expression.Covers x.1.expression :=
  Focus.IsIn.apart_iff a.source.wellFormed (h.stands x hx).expression_isIn
    (h.stands y hy).expression_isIn (h.stands x hx).above_ne_nil (h.stands y hy).above_ne_nil

/-! ## Insertions -/

private theorem of_mem_insertions (h : a.Places ds) {i : Insertion}
    (hi : i ∈ Patch.insertions a.source (partsOf ds)) {p : Nat} (hp : p ∈ i.offsets) :
    a.source.IsModuleOffset p ∨ ∃ x ∈ ds, x.1.component.IsBodyOffset p := by
  rcases Patch.of_mem_insertions hi with hmodule | ⟨parts, hparts, hi⟩
  · exact .inl (hmodule p hp)
  · obtain ⟨x, hx, rfl⟩ := List.mem_map.1 hparts
    obtain ⟨sites, hdrafts⟩ := h.drafts x hx
    rcases hdrafts.inserts i hi p hp with hbody | hmodule
    · exact .inr ⟨x, hx, hbody⟩
    · exact .inl hmodule

/-- No insertion falls strictly inside a value. -/
theorem outside_value (h : a.Places ds) {x : Site × Draft} (hx : x ∈ ds) {i : Insertion}
    (hi : i ∈ Patch.insertions a.source (partsOf ds)) {p : Nat} (hp : p ∈ i.offsets) :
    x.1.expression.node.stop ≤ p ∨ p ≤ x.1.expression.node.start := by
  have hs := h.stands x hx
  rcases h.of_mem_insertions hi hp with hmodule | ⟨y, hy, hbody⟩
  · exact hs.outside_of_isModuleOffset hmodule
  · exact hs.outside_of_isBodyOffset a.source.wellFormed (h.stands y hy) hbody

/-- No insertion falls strictly inside an import declaration in which no value lies. -/
theorem outside_import (h : a.Places ds) {n : Node} (hn : n ∈ a.source.root.children)
    (hfree : ∀ x ∈ ds, ¬x.1.LiesIn (n.start, n.stop)) {i : Insertion}
    (hi : i ∈ Patch.insertions a.source (partsOf ds)) {p : Nat} (hp : p ∈ i.offsets) :
    n.stop ≤ p ∨ p ≤ n.start := by
  rcases h.of_mem_insertions hi hp with hmodule | ⟨x, hx, hbody⟩
  · exact Source.statement_outside_of_isModuleOffset hn hmodule
  · have hs := h.stands x hx
    refine hs.statement_outside_of_isBodyOffset a.source.wellFormed hn ?_ hbody
    intro hmem
    exact hfree x hx (hs.expression_isIn.covers a.source.wellFormed hmem)

/-! ## Assembling -/

/-- Drafts can be assembled exactly if no value covers another one and no value lies in an import
declaration that they rewrite. -/
theorem isOk_assemble_iff (h : a.Places ds) :
    (Patch.assemble a.source (partsOf ds)).isOk = true ↔
      (∀ x ∈ ds, ∀ y ∈ ds, x ≠ y → ¬x.1.expression.Covers y.1.expression) ∧
        ∀ x ∈ ds, ∀ span ∈ Patch.rewritten (partsOf ds), ¬x.1.LiesIn span := by
  rw [Patch.isOk_assemble_iff fun r hr => Nat.le_of_lt (h.start_lt_stop hr)]
  have hvalue {x y : Site × Draft} (hx : x ∈ ds) (hy : y ∈ ds) (hne : x ≠ y) :
      replacement x.1 x.2.name ≠ replacement y.1 y.2.name := by
    intro heq
    have hstart := congrArg Edit.start heq
    exact hne (h.one x hx y hy ((h.stands x hx).expression_eq_of_start_eq a.source.wellFormed
      (h.stands y hy) hstart))
  constructor
  · rintro ⟨hapart, -⟩
    constructor
    · intro x hx y hy hne
      exact ((h.apart_values_iff hx hy).1 (hapart _ (h.mem_replacements hx) _
        (h.mem_replacements hy) (hvalue hx hy hne))).1
    · intro x hx span hspan
      obtain ⟨e, he, hspan⟩ := Patch.mem_rewritten_iff.1 hspan
      have hr : Patch.importReplacement? e = some ⟨span.1, span.2, e.render⟩ := by
        rw [Patch.importReplacement?, hspan, Option.map_some]
      refine (h.apart_import_iff he hr hx).1 (hapart _ (Patch.mem_replacements_iff.2
        (.inl ⟨e, he, hr⟩)) _ (h.mem_replacements hx) ?_)
      -- They start at different offsets, as no value starts where a statement does.
      intro heq
      obtain ⟨n, hn, -, hstatement⟩ := h.statement_of_mem_rewritten (mem_rewritten he hr)
      have hcovers : x.1.expression.Covers (a.source.focus.down n) := by
        have hstart := congrArg Edit.start heq
        have hstop := congrArg Edit.stop heq
        obtain ⟨hstart', hstop'⟩ := Prod.mk.inj hstatement
        exact ⟨Nat.le_of_eq (hstart.symm.trans hstart'), Nat.le_of_eq (hstop'.symm.trans hstop)⟩
      exact (h.stands x hx).not_covers_statement a.source.wellFormed hn hcovers
  · rintro ⟨hnested, himports⟩
    constructor
    · intro r hr r' hr' hne
      rcases h.of_mem_replacements hr with ⟨e, he, hr⟩ | ⟨x, hx, rfl⟩ <;>
        rcases h.of_mem_replacements hr' with ⟨e', he', hr'⟩ | ⟨y, hy, rfl⟩
      · exact h.apart_imports he he' hr hr' hne
      · exact (h.apart_import_iff he hr hy).2 (himports y hy _ (mem_rewritten he hr))
      · exact ((h.apart_import_iff he' hr' hx).2 (himports x hx _ (mem_rewritten he' hr'))).symm
      · have hne' : x ≠ y := fun heq => hne (by rw [heq])
        exact (h.apart_values_iff hx hy).2 ⟨hnested x hx y hy hne', hnested y hy x hx hne'.symm⟩
    · intro r hr i hi p hp
      rcases h.of_mem_replacements hr with ⟨e, he, hr⟩ | ⟨x, hx, rfl⟩
      · obtain ⟨n, hn, -, hspan⟩ := h.statement_of_mem_rewritten (mem_rewritten he hr)
        obtain ⟨hstart, hstop⟩ := Prod.mk.inj hspan
        rw [hstart, hstop]
        refine h.outside_import hn ?_ hi hp
        intro y hy
        rw [← hspan]
        exact himports y hy _ (mem_rewritten he hr)
      · exact h.outside_value hx hi hp

end Places

end Analysis

end StableProps

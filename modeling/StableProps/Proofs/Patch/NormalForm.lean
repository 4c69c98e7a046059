import StableProps.Proofs.Patch.Imports
import StableProps.Proofs.Patch.Overlap

/-!
# The normal form of a patch

The parts of several fixes come in any order and may meet at any offset. What becomes of them is
told offset by offset: all that is inserted at an offset becomes one edit, in which each text stands
once and in the order it was given. Texts that are replaced stay as they are. Ordering and joining
edits keeps the texts at every offset, so the normal form can be read off the parts. It exists
exactly if no replaced text meets another one or is broken up by something inserted.
-/

namespace StableProps

/-- Whether an edit inserts at an offset. -/
def Edit.insertsAt (p : Nat) (e : Edit) : Bool := e.isInsertion && e.start == p

theorem Edit.insertsAt_iff {p : Nat} {e : Edit} :
    e.insertsAt p = true ↔ e.start = p ∧ e.stop = p := by
  rw [insertsAt, Bool.and_eq_true, isInsertion_iff, beq_iff_eq]
  omega

namespace Patch

/-! ## Texts at an offset -/

/-- The texts that edits insert at an offset, in their order. -/
def insertedAt (p : Nat) (l : List Edit) : List String :=
  (l.filter (Edit.insertsAt p)).map Edit.text

private theorem insertedAt_append (p : Nat) (l l' : List Edit) :
    insertedAt p (l ++ l') = insertedAt p l ++ insertedAt p l' := by
  rw [insertedAt, List.filter_append, List.map_append, insertedAt, insertedAt]

/-- An edit is moved past others only if it does not insert where they do. -/
theorem filter_insertsAt_place (p : Nat) (e : Edit) (l : List Edit) :
    (place e l).filter (Edit.insertsAt p) = (e :: l).filter (Edit.insertsAt p) := by
  induction l with
  | nil => rfl
  | cons f rest ih =>
    rw [place]
    split
    · rfl
    next hbefore =>
      by_cases hf : f.insertsAt p = true
      · have he : ¬e.insertsAt p = true := by
          intro he
          rw [Edit.insertsAt_iff] at he hf
          exact hbefore (before_iff.2 (by omega))
        rw [List.filter_cons_of_pos hf, ih, List.filter_cons_of_neg he, List.filter_cons_of_neg he,
          List.filter_cons_of_pos hf]
      · rw [List.filter_cons_of_neg hf, ih, List.filter_cons, List.filter_cons,
          List.filter_cons_of_neg hf]

/-- Ordering keeps the texts at an offset and their order. -/
theorem insertedAt_ordered (p : Nat) (l : List Edit) :
    insertedAt p (ordered l) = insertedAt p l := by
  have hfilter : (ordered l).filter (Edit.insertsAt p) = l.filter (Edit.insertsAt p) := by
    induction l with
    | nil => rfl
    | cons e l ih =>
      change (place e (ordered l)).filter _ = _
      rw [filter_insertsAt_place, List.filter_cons, List.filter_cons, ih]
  rw [insertedAt, hfilter, insertedAt]

/-- A joined edit has the range of the edit it is joined with. -/
theorem joinFront_cases (e : Edit) (l : List Edit) :
    joinFront e l = e :: l ∨ ∃ f rest, l = f :: rest ∧ e.isInsertion = true ∧
      f.isInsertion = true ∧ e.start = f.start ∧
      joinFront e l = { f with text := e.text ++ f.text } :: rest := by
  cases l with
  | nil => exact .inl rfl
  | cons f rest =>
    rw [joinFront]
    split
    next h =>
      simp only [Bool.and_eq_true, beq_iff_eq] at h
      exact .inr ⟨f, rest, rfl, h.1.1, h.1.2, h.2, rfl⟩
    next => exact .inl rfl

/-- Joining keeps what is inserted at an offset, and whether anything is. -/
theorem insertedAt_joinFront (p : Nat) (e : Edit) (l : List Edit) :
    String.join (insertedAt p (joinFront e l)) = String.join (insertedAt p (e :: l)) ∧
      (insertedAt p (joinFront e l) = [] ↔ insertedAt p (e :: l) = []) := by
  rcases joinFront_cases e l with h | ⟨f, rest, rfl, he, hf, hstart, h⟩
  · rw [h]
    exact ⟨rfl, Iff.rfl⟩
  · rw [h]
    have hsame : e.insertsAt p = f.insertsAt p := by
      rw [Edit.insertsAt, Edit.insertsAt, he, hf, hstart]
    have hjoined : Edit.insertsAt p { f with text := e.text ++ f.text } = f.insertsAt p := rfl
    by_cases hp : f.insertsAt p = true
    · simp [insertedAt, hsame, hjoined, hp, String.join_cons, String.append_assoc]
    · simp [insertedAt, hsame, hjoined, hp]

private theorem insertedAt_join (p : Nat) (l : List Edit) :
    String.join (insertedAt p (join l)) = String.join (insertedAt p l) ∧
      (insertedAt p (join l) = [] ↔ insertedAt p l = []) := by
  induction l with
  | nil => exact ⟨rfl, Iff.rfl⟩
  | cons e l ih =>
    obtain ⟨htext, hempty⟩ := insertedAt_joinFront p e (join l)
    have hcons (l : List Edit) : insertedAt p (e :: l) = insertedAt p [e] ++ insertedAt p l :=
      insertedAt_append p [e] l
    constructor
    · calc String.join (insertedAt p (join (e :: l)))
          = String.join (insertedAt p (e :: join l)) := htext
        _ = String.join (insertedAt p (e :: l)) := by
          rw [hcons, hcons l, String.join_append, String.join_append, ih.1]
    · calc insertedAt p (join (e :: l)) = []
          ↔ insertedAt p (e :: join l) = [] := hempty
        _ ↔ insertedAt p (e :: l) = [] := by
          rw [hcons, hcons l, List.append_eq_nil_iff, List.append_eq_nil_iff, ih.2]

/-- Joining leaves replaced texts as they are. -/
theorem filter_not_isInsertion_join (l : List Edit) :
    (join l).filter (!·.isInsertion) = l.filter (!·.isInsertion) := by
  induction l with
  | nil => rfl
  | cons e l ih =>
    change (joinFront e (join l)).filter _ = _
    rcases joinFront_cases e (join l) with h | ⟨f, rest, hl, he, hf, -, h⟩
    · rw [h, List.filter_cons, List.filter_cons, ih]
    · have hjoined : Edit.isInsertion { f with text := e.text ++ f.text } = f.isInsertion := rfl
      rw [h]
      rw [hl] at ih
      simpa [he, hf, hjoined] using ih

/-! ## One insertion at an offset -/

/-- Edits in order of which at most one inserts at an offset. -/
def strictlyBefore (e f : Edit) : Prop :=
  before e f = true ∧ ¬(e.isInsertion = true ∧ f.isInsertion = true ∧ e.start = f.start)

private theorem before_of_range {e f g : Edit} (hstart : f.start = g.start)
    (hstop : f.stop = g.stop) (h : before e f = true) : before e g = true := by
  rw [before_iff] at *
  omega

/-- A joined edit has the range of one of the edits. -/
theorem exists_range_of_mem_join {l : List Edit} {e : Edit} (h : e ∈ join l) :
    ∃ f ∈ l, f.start = e.start ∧ f.stop = e.stop := by
  induction l generalizing e with
  | nil => simp [join] at h
  | cons f l ih =>
    change e ∈ joinFront f (join l) at h
    rcases joinFront_cases f (join l) with heq | ⟨g, rest, hl, -, -, -, heq⟩
    · rw [heq] at h
      rcases List.mem_cons.1 h with rfl | h
      · exact ⟨e, List.mem_cons_self, rfl, rfl⟩
      · obtain ⟨g, hg, hrange⟩ := ih h
        exact ⟨g, List.mem_cons_of_mem _ hg, hrange⟩
    · rw [heq] at h
      rcases List.mem_cons.1 h with rfl | h
      · obtain ⟨k, hk, hrange⟩ := ih (hl ▸ List.mem_cons_self)
        exact ⟨k, List.mem_cons_of_mem _ hk, hrange⟩
      · obtain ⟨k, hk, hrange⟩ := ih (hl ▸ List.mem_cons_of_mem _ h)
        exact ⟨k, List.mem_cons_of_mem _ hk, hrange⟩

/-- In ordered edits, all that inserts at an offset stands together and is joined. -/
theorem pairwise_join {l : List Edit} (h : l.Pairwise fun e f => before e f = true) :
    (join l).Pairwise strictlyBefore := by
  induction l with
  | nil => exact .nil
  | cons e l ih =>
    obtain ⟨hhead, htail⟩ := List.pairwise_cons.1 h
    have hbefore : ∀ f ∈ join l, before e f = true := by
      intro f hf
      obtain ⟨g, hg, hstart, hstop⟩ := exists_range_of_mem_join hf
      exact before_of_range hstart hstop (hhead g hg)
    change (joinFront e (join l)).Pairwise strictlyBefore
    have hjoin := ih htail
    cases hl : join l with
    | nil => exact List.pairwise_singleton _ _
    | cons f rest =>
      rw [hl] at hjoin hbefore
      obtain ⟨hfirst, hrest⟩ := List.pairwise_cons.1 hjoin
      rw [joinFront]
      split
      next =>
        -- The joined edit has the range of the first one, and order looks at ranges only.
        exact .cons hfirst hrest
      next hapart =>
        simp only [Bool.and_eq_true, beq_iff_eq, and_assoc] at hapart
        refine .cons ?_ hjoin
        intro g hg
        refine ⟨hbefore g hg, ?_⟩
        rcases List.mem_cons.1 hg with rfl | hg
        · exact hapart
        · -- An edit between two insertions at one offset is an insertion there as well.
          rintro ⟨he, hginsertion, hstart⟩
          have hef := before_iff.1 (hbefore f List.mem_cons_self)
          have hfg := before_iff.1 (hfirst g hg).1
          rw [Edit.isInsertion_iff] at he hginsertion
          refine hapart ⟨?_, ?_, ?_⟩
          · exact Edit.isInsertion_iff.2 he
          · rw [Edit.isInsertion_iff]
            omega
          · omega

/-- The one edit for all texts at an offset. -/
def joinedAt (p : Nat) (texts : List String) : List Edit :=
  if texts.isEmpty then [] else [{ start := p, stop := p, text := String.join texts }]

/-- Where at most one edit inserts, it holds all that is inserted there. -/
theorem filter_insertsAt_eq_joinedAt {l : List Edit} (h : l.Pairwise strictlyBefore) (p : Nat) :
    l.filter (Edit.insertsAt p) = joinedAt p (insertedAt p l) := by
  have hone := h.filter (Edit.insertsAt p)
  have hall : ∀ e ∈ l.filter (Edit.insertsAt p), e.start = p ∧ e.stop = p :=
    fun e he => Edit.insertsAt_iff.1 (List.mem_filter.1 he).2
  rw [insertedAt]
  generalize l.filter (Edit.insertsAt p) = found at hone hall
  match found with
  | [] => rfl
  | [e] =>
    obtain ⟨hstart, hstop⟩ := hall e List.mem_cons_self
    rw [joinedAt, List.map_singleton, String.join_cons, String.join_nil, String.append_empty,
      ← hstart]
    rw [← hstart] at hstop
    cases e with
    | mk start stop text =>
      obtain rfl : stop = start := hstop
      rfl
  | e :: f :: rest =>
    obtain ⟨hstart, hstop⟩ := hall e List.mem_cons_self
    obtain ⟨hstart', hstop'⟩ := hall f (List.mem_cons_of_mem _ List.mem_cons_self)
    refine absurd ?_ ((List.pairwise_cons.1 hone).1 f List.mem_cons_self).2
    refine ⟨Edit.isInsertion_iff.2 ?_, Edit.isInsertion_iff.2 ?_, ?_⟩ <;> omega

/-- The edits in normal form at an offset hold all texts that are inserted there. -/
theorem filter_insertsAt_join_ordered (l : List Edit) (p : Nat) :
    (join (ordered l)).filter (Edit.insertsAt p) = joinedAt p (insertedAt p l) := by
  obtain ⟨htext, hempty⟩ := insertedAt_join p (ordered l)
  rw [insertedAt_ordered] at htext hempty
  rw [filter_insertsAt_eq_joinedAt (pairwise_join (pairwise_ordered l)), joinedAt, joinedAt, htext]
  by_cases h : insertedAt p l = []
  · rw [h, hempty.2 h]
  · simp [List.isEmpty_iff, h, hempty]

end Patch

/-! ## Bodies that become blocks -/

/-- The range of a body. -/
def BodyWrap.range (w : BodyWrap) : Nat × Nat := (w.start, w.stop)

/-- A body that becomes a block, with the declarations it takes in. -/
structure NewBlock where
  wrap : BodyWrap
  declarations : List String

namespace NewBlock

/-- What stands in front of the body: all declarations, one on a line, and the start of the
statement that returns the body. -/
def opening (b : NewBlock) : String :=
  let inner := b.wrap.indent ++ b.wrap.unit
  "\x7b\n" ++ String.join (b.declarations.map fun d => inner ++ d ++ "\n") ++ inner ++ "return "

/-- What stands behind the body. -/
def closing (b : NewBlock) : String := ";\n" ++ b.wrap.indent ++ "\x7d"

/-- What the block inserts at an offset. -/
def textsAt (p : Nat) (b : NewBlock) : List String :=
  (if b.wrap.start = p then [b.opening] else []) ++ if b.wrap.stop = p then [b.closing] else []

end NewBlock

namespace Patch

/-- The bodies that become blocks, each once and as the first insertion into it says, with the
declarations of all insertions into it. -/
def blocks (insertions : List Insertion) : List NewBlock :=
  (distinctBy BodyWrap.range (insertions.filterMap (·.wrap))).map fun w =>
    { wrap := w
      declarations := (insertions.filter fun i => i.wrap.any (·.range = w.range)).map (·.text) }

private theorem insertedAt_wrapEdits (p : Nat) (w : BodyWrap) (declarations : List String) :
    insertedAt p (wrapEdits w declarations) = NewBlock.textsAt p ⟨w, declarations⟩ := by
  by_cases hstart : w.start = p <;> by_cases hstop : w.stop = p <;>
    simp [insertedAt, wrapEdits, NewBlock.textsAt, NewBlock.opening, NewBlock.closing,
      Edit.insertsAt, Edit.isInsertion, hstart, hstop]

/-- The insertions into bodies that become blocks: the body and the declaration. -/
def wraps (insertions : List Insertion) : List (BodyWrap × String) :=
  insertions.filterMap fun i => i.wrap.map fun w => (w, i.text)

private theorem map_fst_wraps (insertions : List Insertion) :
    (wraps insertions).map (·.1) = insertions.filterMap (·.wrap) := by
  rw [wraps, List.map_filterMap]
  refine congrArg (List.filterMap · insertions) (funext fun i => ?_)
  rw [Option.map_map]
  exact Option.map_id'

private theorem declarations_wraps (insertions : List Insertion) (w : BodyWrap) :
    ((wraps insertions).filter fun x => x.1.start = w.start ∧ x.1.stop = w.stop).map (·.2) =
      (insertions.filter fun i => i.wrap.any (·.range = w.range)).map (·.text) := by
  induction insertions with
  | nil => rfl
  | cons i rest ih =>
    rw [wraps] at ih ⊢
    cases hwrap : i.wrap with
    | none => simpa [hwrap] using ih
    | some v =>
      by_cases hrange : v.start = w.start ∧ v.stop = w.stop
      · simpa [hwrap, BodyWrap.range, hrange] using ih
      · simpa [hwrap, BodyWrap.range, hrange] using ih

/-- The edits for wrapped bodies insert what the blocks need. -/
theorem insertedAt_wrapped (p : Nat) (insertions : List Insertion) :
    insertedAt p (wrapped insertions) = (blocks insertions).flatMap (NewBlock.textsAt p) := by
  have hwrapped : wrapped insertions =
      (distinctBy (BodyWrap.range ∘ Prod.fst) (wraps insertions)).flatMap fun x =>
        wrapEdits x.1 ((insertions.filter fun i => i.wrap.any (·.range = x.1.range)).map
          (·.text)) := by
    simp only [← declarations_wraps]
    rfl
  rw [hwrapped, insertedAt, List.filter_flatMap, List.map_flatMap, blocks, ← map_fst_wraps,
    distinctBy_map, List.map_map, List.flatMap_map]
  refine congrArg (List.flatMap · _) (funext fun x => ?_)
  exact insertedAt_wrapEdits p x.1 _

/-! ## Plain insertions -/

/-- The plain insertions at an offset. -/
def plainAt (p : Nat) (insertions : List Insertion) : List Insertion :=
  insertions.filter fun i => i.wrap.isNone && i.offset == p

/-- The edits for plain insertions insert each text once. -/
theorem insertedAt_inserted (p : Nat) (insertions : List Insertion) :
    String.join (insertedAt p (inserted insertions)) =
        String.join ((plainAt p insertions).map (·.text)) ∧
      (insertedAt p (inserted insertions) = [] ↔ plainAt p insertions = []) := by
  have hplain : (insertions.filter (·.wrap.isNone)).filter (·.offset == p) =
      plainAt p insertions := by
    rw [List.filter_filter, plainAt]
    exact List.filter_congr fun i _ => Bool.and_comm _ _
  have hinserts (i : Insertion) (text : String) :
      Edit.insertsAt p { start := i.offset, stop := i.offset, text } = (i.offset == p) := by
    simp [Edit.insertsAt, Edit.isInsertion]
  have hinserted : insertedAt p (inserted insertions) =
      ((plainAt p insertions).head?).toList.map fun _ =>
        String.join ((plainAt p insertions).map (·.text)) := by
    rw [← hplain, ← filter_distinctBy_key, insertedAt, inserted, List.filter_map, List.map_map]
    simp only [Function.comp_def, hinserts]
    refine List.map_congr_left fun i hi => ?_
    rw [eq_of_beq (List.mem_filter.1 hi).2]
  rw [hinserted]
  cases plainAt p insertions with
  | nil => exact ⟨rfl, by simp⟩
  | cons i rest => simp [String.join_cons, String.join_nil]

/-! ## The normal form -/

/-- All texts that are inserted at an offset: replacements of nothing, ends of bodies that become
blocks, and plain insertions in the order they were given, those of imports first. -/
def textsAt (s : Source) (parts : List FixParts) (p : Nat) : List String :=
  insertedAt p (distinct (replacements parts)) ++
    (blocks (distinct (insertions s parts))).flatMap (NewBlock.textsAt p) ++
    (plainAt p (distinct (insertions s parts))).map (·.text)

theorem edits_eq (s : Source) (parts : List FixParts) :
    edits s parts = join (ordered (distinct (replacements parts) ++
      wrapped (distinct (insertions s parts)) ++ inserted (distinct (insertions s parts)))) :=
  rfl

theorem eq_edits_of_assemble {s : Source} {parts : List FixParts} {result : List Edit}
    (h : assemble s parts = .ok result) : result = edits s parts := by
  rw [assemble] at h
  split at h
  · cases h
  · exact (Except.ok.inj h).symm

private theorem joinedAt_congr {p : Nat} {texts texts' : List String}
    (htext : String.join texts = String.join texts') (hempty : texts = [] ↔ texts' = []) :
    joinedAt p texts = joinedAt p texts' := by
  rw [joinedAt, joinedAt, htext]
  by_cases h : texts' = []
  · rw [h, hempty.2 h]
  · simp [List.isEmpty_iff, h, hempty]

/-- At every offset the edits hold all texts that are inserted there. -/
theorem filter_insertsAt_edits (s : Source) (parts : List FixParts) (p : Nat) :
    (edits s parts).filter (Edit.insertsAt p) = joinedAt p (textsAt s parts p) := by
  obtain ⟨htext, hempty⟩ := insertedAt_inserted p (distinct (insertions s parts))
  rw [edits_eq, filter_insertsAt_join_ordered, insertedAt_append, insertedAt_append,
    insertedAt_wrapped, textsAt]
  refine joinedAt_congr ?_ ?_
  · rw [String.join_append, htext, ← String.join_append]
  · rw [List.append_eq_nil_iff, hempty, List.append_eq_nil_iff (q := List.map _ _),
      List.map_eq_nil_iff]

/-- Replaced texts stay as they are. -/
theorem filter_not_isInsertion_edits (s : Source) (parts : List FixParts) :
    ((edits s parts).filter (!·.isInsertion)).Perm
      ((distinct (replacements parts)).filter (!·.isInsertion)) := by
  have hnone : (wrapped (distinct (insertions s parts)) ++
      inserted (distinct (insertions s parts))).filter (!·.isInsertion) = [] := by
    refine List.filter_eq_nil_iff.2 fun e he => ?_
    simp [Edit.isInsertion_iff.2 (mem_insertionEdits he).1]
  rw [edits_eq, filter_not_isInsertion_join]
  refine ((perm_ordered _).filter _).trans ?_
  rw [List.append_assoc, List.filter_append, hnone, List.append_nil]

/-- A replaced text meets another one, or something is inserted strictly inside of it. -/
def Clashes (s : Source) (parts : List FixParts) : Prop :=
  ∃ r ∈ replacements parts, r.start < r.stop ∧
    ((∃ r' ∈ replacements parts, r' ≠ r ∧ r'.start < r.stop ∧ r.start < r'.stop) ∨
      ∃ i ∈ insertions s parts, ∃ p ∈ i.offsets, r.start < p ∧ p < r.stop)

/-- The edits are the normal form of the parts of fixes. -/
structure IsNormalForm (s : Source) (parts : List FixParts) (edits : List Edit) : Prop where
  /-- Edits stand in the order in which they start. -/
  sorted : edits.Pairwise fun e f => e.start ≤ f.start
  /-- None starts before another one in front of it ends. -/
  apart : edits.Pairwise fun e f => e.stop ≤ f.start
  /-- At most one of them inserts at an offset. -/
  single : ∀ p, (edits.filter (Edit.insertsAt p)).length ≤ 1
  /-- Every replacement of some text is there once, whatever number of fixes ask for it. -/
  replaced : (edits.filter (!·.isInsertion)).Perm
    ((distinct (replacements parts)).filter (!·.isInsertion))
  /-- All that is inserted at an offset is one edit, in which each text stands once. -/
  inserted : ∀ p, edits.filter (Edit.insertsAt p) = joinedAt p (textsAt s parts p)

end Patch

/-- No range in the parts of a fix ends before it starts. -/
structure FixParts.IsOrdered (x : FixParts) : Prop where
  replacements : ∀ r ∈ x.replacements, r.start ≤ r.stop
  imports : ∀ e ∈ x.imports, ∀ span ∈ e.span, span.1 ≤ span.2

instance (x : FixParts) : Decidable x.IsOrdered :=
  decidable_of_iff ((∀ r ∈ x.replacements, r.start ≤ r.stop) ∧
    ∀ e ∈ x.imports, ∀ span ∈ e.span, span.1 ≤ span.2) ⟨fun h => ⟨h.1, h.2⟩, fun h => ⟨h.1, h.2⟩⟩

namespace Patch

private theorem start_le_stop_of_isOrdered {parts : List FixParts} (h : ∀ x ∈ parts, x.IsOrdered)
    {r : Edit} (hr : r ∈ replacements parts) : r.start ≤ r.stop := by
  rcases List.mem_append.1 hr with hr | hr
  · obtain ⟨e, he, hr⟩ := List.mem_filterMap.1 hr
    obtain ⟨f, hf, hkey⟩ := exists_of_mem_mergeEntries (List.mem_filter.1 he).1
    obtain ⟨x, hx, hf⟩ := List.mem_flatMap.1 hf
    obtain ⟨span, hspan, rfl⟩ := Option.map_eq_some_iff.1 hr
    exact (h x hx).imports f hf span ((Prod.mk.inj hkey).2.trans hspan)
  · obtain ⟨x, hx, hr⟩ := List.mem_flatMap.1 hr
    exact (h x hx).replacements r hr

/-- A patch cannot be assembled exactly if its parts clash. -/
theorem not_isOk_assemble_iff {s : Source} {parts : List FixParts}
    (h : ∀ r ∈ replacements parts, r.start ≤ r.stop) :
    ¬(assemble s parts).isOk = true ↔ Clashes s parts := by
  rw [isOk_assemble_iff h]
  constructor
  · intro hnot
    rcases Classical.not_and_iff_not_or_not.1 hnot with hnot | hnot
    · simp only [not_forall] at hnot
      obtain ⟨r, hr, r', hr', hne, hmeet⟩ := hnot
      rw [Edit.Apart] at hmeet
      have hle := h r hr
      -- One of the two replaces some text, as replacements of nothing lie apart.
      by_cases hempty : r.start = r.stop
      · exact ⟨r', hr', by omega, .inl ⟨r, hr, hne, by omega, by omega⟩⟩
      · exact ⟨r, hr, by omega, .inl ⟨r', hr', hne.symm, by omega, by omega⟩⟩
    · simp only [not_forall] at hnot
      obtain ⟨r, hr, i, hi, p, hp, hinside⟩ := hnot
      exact ⟨r, hr, by omega, .inr ⟨i, hi, p, hp, by omega, by omega⟩⟩
  · rintro ⟨r, hr, -, ⟨r', hr', hne, hstart, hstop⟩ | ⟨i, hi, p, hp, hstart, hstop⟩⟩ hok
    · rcases hok.1 r' hr' r hr hne with hapart | hapart <;> omega
    · rcases hok.2 r hr i hi p hp with hapart | hapart <;> omega

/-- No edit ends before it starts, if no replacement does. -/
theorem start_le_stop_of_mem_edits {s : Source} {parts : List FixParts}
    (h : ∀ r ∈ replacements parts, r.start ≤ r.stop) {e : Edit} (he : e ∈ edits s parts) :
    e.start ≤ e.stop := by
  rw [edits_eq] at he
  obtain ⟨f, hf, hstart, hstop⟩ := exists_range_of_mem_join he
  rw [← hstart, ← hstop]
  have hf := (perm_ordered _).mem_iff.1 hf
  rw [List.append_assoc] at hf
  rcases List.mem_append.1 hf with hf | hf
  · exact h f (mem_distinct.1 hf)
  · exact Nat.le_of_eq (mem_insertionEdits hf).1

/-- The parts of fixes are put together in normal form, unless they clash. -/
theorem isNormalForm_edits {s : Source} {parts : List FixParts}
    (h : ∀ r ∈ replacements parts, r.start ≤ r.stop)
    (hok : overlap? (edits s parts) = none) : IsNormalForm s parts (edits s parts) where
  sorted := by
    rw [edits_eq]
    refine (pairwise_join (pairwise_ordered _)).imp fun hbefore => ?_
    have := before_iff.1 hbefore.1
    omega
  apart := by
    exact (overlap?_eq_none_iff fun e he => start_le_stop_of_mem_edits h he).1 hok
  single p := by
    rw [filter_insertsAt_edits, joinedAt]
    split <;> simp
  replaced := filter_not_isInsertion_edits s parts
  inserted := filter_insertsAt_edits s parts

/-- No body becomes a block twice. -/
theorem pairwise_blocks (insertions : List Insertion) :
    (blocks insertions).Pairwise fun b c => b.wrap.range ≠ c.wrap.range :=
  List.pairwise_map.2 (pairwise_distinctBy BodyWrap.range _)

/-- Every body that something is inserted into becomes a block. -/
theorem exists_mem_blocks {insertions : List Insertion} {i : Insertion} (hi : i ∈ insertions)
    {w : BodyWrap} (hw : i.wrap = some w) : ∃ b ∈ blocks insertions, b.wrap.range = w.range := by
  have hmem : w ∈ insertions.filterMap (·.wrap) := List.mem_filterMap.2 ⟨i, hi, hw⟩
  obtain ⟨v, hv, hrange⟩ := exists_mem_distinctBy BodyWrap.range hmem
  exact ⟨_, List.mem_map_of_mem hv, hrange⟩

/-- Either the parts of fixes clash and there is no patch, or they do not and the patch is in normal
form: ordered, without overlaps, and with each text once at its offset. A body becomes a block once,
whatever number of declarations it takes in. -/
theorem isNormalForm_assemble (s : Source) (parts : List FixParts)
    (h : ∀ x ∈ parts, x.IsOrdered) :
    ((∃ start stop previousStart previousStop, assemble s parts =
        .error (.overlap start stop previousStart previousStop)) ∧ Clashes s parts ∨
      (∃ edits, assemble s parts = .ok edits ∧ IsNormalForm s parts edits) ∧ ¬Clashes s parts) ∧
    ((blocks (distinct (insertions s parts))).Pairwise fun b c => b.wrap.range ≠ c.wrap.range) ∧
    ∀ i ∈ insertions s parts, ∀ w, i.wrap = some w →
      ∃ b ∈ blocks (distinct (insertions s parts)), b.wrap.range = w.range := by
  have hordered : ∀ r ∈ replacements parts, r.start ≤ r.stop :=
    fun r hr => start_le_stop_of_isOrdered h hr
  refine ⟨?_, pairwise_blocks _, fun i hi w hw => exists_mem_blocks (mem_distinct.2 hi) hw⟩
  have hclash := not_isOk_assemble_iff (s := s) hordered
  rw [isOk_assemble_iff_overlap?] at hclash
  rw [assemble]
  cases hoverlap : overlap? (edits s parts) with
  | some pair =>
    obtain ⟨e, f⟩ := pair
    exact .inl ⟨⟨_, _, _, _, rfl⟩, hclash.1 (by simp [hoverlap])⟩
  | none =>
    refine .inr ⟨⟨_, rfl, isNormalForm_edits hordered hoverlap⟩, ?_⟩
    exact fun hnot => hclash.2 hnot hoverlap

/-- A component that draws two fresh values. -/
def twoValues : Source :=
  .parsed (Language.snippetPath .tsx) .tsx
    "const C = () => <A b=\x7b() => 1\x7d c=\x7b() => 2\x7d />;\n"

/-- The fix of one of the values: it is replaced by a name that the body declares. -/
def hookFix (start stop : Nat) (name declaration : String) : FixParts where
  replacements := [{ start, stop, text := name }]
  insertions := [{ offset := 16, text := declaration, wrap := some ⟨16, 45, "", "    "⟩ }]
  imports := [{ key := "react", specifier := "react"
                added := [{ imported := "useCallback", localName := "useCallback" }] }]

/-- The fixes of both values. -/
def hookFixes : List FixParts :=
  [hookFix 22 29 "aB" "const aB = useCallback(() => 1, []);",
    hookFix 34 41 "aC" "const aC = useCallback(() => 2, []);"]

set_option maxRecDepth 100000 in
/-- Both declarations stand in the one block that the body becomes. -/
theorem isNormalForm_hookFixes :
    (∀ x ∈ hookFixes, x.IsOrdered) ∧
      ∃ edits, assemble twoValues hookFixes = .ok edits ∧
        IsNormalForm twoValues hookFixes edits := by
  have hordered : ∀ x ∈ hookFixes, x.IsOrdered := by decide
  refine ⟨hordered, ?_⟩
  have hok : (assemble twoValues hookFixes).isOk = true := by decide +kernel
  rcases (isNormalForm_assemble twoValues hookFixes hordered).1 with
    ⟨⟨_, _, _, _, herror⟩, -⟩ | ⟨h, -⟩
  · rw [herror] at hok
    cases hok
  · exact h

end Patch

end StableProps

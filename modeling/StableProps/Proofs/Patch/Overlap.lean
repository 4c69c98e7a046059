import Mathlib.Data.List.Pairwise
import StableProps.Patch.Assemble

/-!
# When a patch can be assembled

The check for overlaps looks at neighbours of the ordered edits only. For edits that do not end
before they start this decides whether any two edits overlap, whatever order they were given in.
For the parts of several fixes this comes down to their replacements: a patch is assembled exactly
if replacements lie apart and no insertion falls strictly inside one.
-/

namespace StableProps

/-- Two edits have no byte in common, and none of them lies strictly inside the other one. -/
def Edit.Apart (e f : Edit) : Prop := e.stop ≤ f.start ∨ f.stop ≤ e.start

/-- Edits are apart whichever comes first. -/
theorem Edit.Apart.symm {e f : Edit} (h : e.Apart f) : f.Apart e := Or.symm h

/-- An edit that removes nothing is an insertion. -/
theorem Edit.isInsertion_iff {e : Edit} : e.isInsertion = true ↔ e.start = e.stop := by
  simp [Edit.isInsertion]

namespace Patch

/-! ## Order -/

/-- An edit is placed among the others without losing any. -/
private theorem perm_place (e : Edit) (l : List Edit) : (place e l).Perm (e :: l) := by
  induction l with
  | nil => exact .refl _
  | cons f rest ih =>
    rw [place]
    split
    · exact .refl _
    · exact (ih.cons f).trans (.swap e f rest)

/-- Ordering edits only moves them. -/
theorem perm_ordered (l : List Edit) : (ordered l).Perm l := by
  induction l with
  | nil => exact .refl _
  | cons e l ih => exact (perm_place e _).trans (ih.cons e)

/-- Edits are ordered by where they start, insertions before what is replaced there. -/
theorem before_iff {e f : Edit} :
    before e f = true ↔
      e.start < f.start ∨ e.start = f.start ∧ (e.start = e.stop ∨ f.start ≠ f.stop) := by
  simp [before, Edit.isInsertion]

private theorem before_trans {e f g : Edit} (hef : before e f = true) (hfg : before f g = true) :
    before e g = true := by
  rw [before_iff] at *
  omega

private theorem before_of_not {e f : Edit} (h : ¬before e f = true) : before f e = true := by
  rw [before_iff] at *
  omega

/-- Placing an edit keeps the others in order. -/
private theorem pairwise_place (e : Edit) {l : List Edit}
    (h : l.Pairwise fun f g => before f g = true) :
    (place e l).Pairwise fun f g => before f g = true := by
  induction l with
  | nil => exact List.pairwise_singleton _ _
  | cons f rest ih =>
    obtain ⟨hhead, htail⟩ := List.pairwise_cons.1 h
    rw [place]
    split
    next hef =>
      refine .cons ?_ h
      intro g hg
      rcases List.mem_cons.1 hg with rfl | hg
      · exact hef
      · exact before_trans hef (hhead g hg)
    next hef =>
      refine .cons ?_ (ih htail)
      intro g hg
      rcases List.mem_cons.1 ((perm_place e rest).mem_iff.1 hg) with rfl | hg
      · exact before_of_not hef
      · exact hhead g hg

/-- Ordered edits are in order. -/
theorem pairwise_ordered (l : List Edit) : (ordered l).Pairwise fun e f => before e f = true := by
  induction l with
  | nil => exact .nil
  | cons e l ih => exact pairwise_place e ih

/-! ## Neighbours -/

/-- Edits in a row do not overlap if each ends before the next one starts. -/
private theorem overlap?_cons_eq_none_iff {e : Edit} {l : List Edit} :
    overlap? (e :: l) = none ↔ (∀ f ∈ l.head?, e.stop ≤ f.start) ∧ overlap? l = none := by
  cases l with
  | nil => simp [overlap?]
  | cons f rest =>
    rw [overlap?]
    split
    next h => simp [Nat.not_le.2 h]
    next h => simp [Nat.not_lt.1 h]

/-- Joining insertions keeps where the first edit starts. -/
theorem start_head?_join (l : List Edit) :
    (join l).head?.map Edit.start = l.head?.map Edit.start := by
  cases l with
  | nil => rfl
  | cons e l =>
    change (joinFront e (join l)).head?.map Edit.start = some e.start
    cases join l with
    | nil => rfl
    | cons f rest =>
      rw [joinFront]
      split
      next h =>
        simp only [Bool.and_eq_true, beq_iff_eq] at h
        exact congrArg some h.2.symm
      · rfl

/-- Joining insertions at one offset neither makes nor hides an overlap. -/
private theorem overlap?_joinFront_eq_none_iff (e : Edit) (l : List Edit) :
    overlap? (joinFront e l) = none ↔ overlap? (e :: l) = none := by
  cases l with
  | nil => rfl
  | cons f rest =>
    rw [joinFront]
    split
    next h =>
      simp only [Bool.and_eq_true, Edit.isInsertion_iff, beq_iff_eq] at h
      have hle : e.stop ≤ f.start := by omega
      simp only [overlap?_cons_eq_none_iff, List.head?_cons, Option.mem_some_iff, forall_eq', hle,
        true_and]
    · rfl

/-- Joining insertions neither makes nor mends an overlap. -/
theorem overlap?_join_eq_none_iff (l : List Edit) :
    overlap? (join l) = none ↔ overlap? l = none := by
  induction l with
  | nil => rfl
  | cons e l ih =>
    have hhead : (∀ f ∈ (join l).head?, e.stop ≤ f.start) ↔ ∀ f ∈ l.head?, e.stop ≤ f.start := by
      have hstart := start_head?_join l
      cases hj : (join l).head? <;> cases hl : l.head? <;> simp_all
    calc overlap? (join (e :: l)) = none
        ↔ overlap? (e :: join l) = none := overlap?_joinFront_eq_none_iff e (join l)
      _ ↔ overlap? (e :: l) = none := by
        rw [overlap?_cons_eq_none_iff, overlap?_cons_eq_none_iff, ih, hhead]

/-- Neighbours decide about all pairs, since every edit starts before it ends. -/
theorem overlap?_eq_none_iff {l : List Edit} (h : ∀ e ∈ l, e.start ≤ e.stop) :
    overlap? l = none ↔ l.Pairwise fun e f => e.stop ≤ f.start := by
  induction l with
  | nil => simp [overlap?]
  | cons e l ih =>
    rw [overlap?_cons_eq_none_iff, List.pairwise_cons,
      ih fun f hf => h f (List.mem_cons_of_mem _ hf)]
    refine and_congr_left ?_
    intro hl
    refine ⟨?_, fun hall f hf => hall f (List.mem_of_head? hf)⟩
    intro hhead f hf
    cases l with
    | nil => simp at hf
    | cons g rest =>
      have hg : e.stop ≤ g.start := hhead g rfl
      rcases List.mem_cons.1 hf with rfl | hf
      · exact hg
      · have hle := h g (List.mem_cons_of_mem _ List.mem_cons_self)
        have hgf := (List.pairwise_cons.1 hl).1 f hf
        omega

/-- Of two edits in order, the first ends before the second starts if they lie apart at all. -/
theorem apart_iff_of_before {e f : Edit} (hf : f.start ≤ f.stop) (h : before e f = true) :
    e.Apart f ↔ e.stop ≤ f.start := by
  rw [before_iff] at h
  rw [Edit.Apart]
  omega

/-- Ordered and joined edits pass the check exactly if all edits lie apart. -/
theorem overlap?_join_ordered_eq_none_iff {l : List Edit} (h : ∀ e ∈ l, e.start ≤ e.stop) :
    overlap? (join (ordered l)) = none ↔ l.Pairwise Edit.Apart := by
  have hordered : ∀ e ∈ ordered l, e.start ≤ e.stop :=
    fun e he => h e ((perm_ordered l).mem_iff.1 he)
  have hpair : (ordered l).Pairwise Edit.Apart ↔
      (ordered l).Pairwise fun e f => e.stop ≤ f.start := by
    have hall := (pairwise_ordered l).and
      (List.pairwise_of_forall_mem_list (r := fun _ f => f ∈ ordered l) fun _ _ f hf => hf)
    constructor <;> intro hp
    · refine (hp.and hall).imp ?_
      rintro e f ⟨hapart, hbefore, hf⟩
      exact (apart_iff_of_before (hordered f hf) hbefore).1 hapart
    · exact hp.imp Or.inl
  rw [overlap?_join_eq_none_iff, overlap?_eq_none_iff hordered, ← hpair]
  exact (perm_ordered l).pairwise_iff Edit.Apart.symm

end Patch

/-! ## Parts of fixes -/

/-- The offsets at which an insertion puts text: the ends of the body that becomes a block, or the
one place of a plain insertion. -/
def Insertion.offsets (i : Insertion) : List Nat :=
  match i.wrap with
  | some w => [w.start, w.stop]
  | none => [i.offset]

namespace Patch

/-- The edits of wraps are insertions at the offsets of the parts. -/
private theorem mem_wrapped {insertions : List Insertion} {e : Edit} (h : e ∈ wrapped insertions) :
    e.start = e.stop ∧ ∃ i ∈ insertions, e.start ∈ i.offsets := by
  simp only [wrapped, List.mem_flatMap] at h
  obtain ⟨⟨w, text⟩, hw, he⟩ := h
  obtain ⟨i, hi, heq⟩ := List.mem_filterMap.1 (mem_of_mem_distinctBy hw)
  obtain ⟨v, hv, hpair⟩ := Option.map_eq_some_iff.1 heq
  obtain ⟨rfl, -⟩ := Prod.mk.inj hpair
  have hoffsets : i.offsets = [v.start, v.stop] := by rw [Insertion.offsets, hv]
  simp only [wrapEdits, List.mem_cons, List.not_mem_nil, or_false] at he
  rcases he with rfl | rfl
  · exact ⟨rfl, i, hi, by simp [hoffsets]⟩
  · exact ⟨rfl, i, hi, by simp [hoffsets]⟩

/-- Both ends of a wrap have an edit. -/
private theorem exists_mem_wrapped {insertions : List Insertion} {i : Insertion} {w : BodyWrap}
    (hi : i ∈ insertions) (hw : i.wrap = some w) {p : Nat} (hp : p = w.start ∨ p = w.stop) :
    ∃ e ∈ wrapped insertions, e.start = p := by
  have hmem : (w, i.text) ∈ insertions.filterMap fun i => i.wrap.map fun w => (w, i.text) :=
    List.mem_filterMap.2 ⟨i, hi, by rw [hw]; rfl⟩
  obtain ⟨⟨v, text⟩, hv, hkey⟩ := exists_mem_distinctBy (fun x => (x.1.start, x.1.stop)) hmem
  obtain ⟨hstart, hstop⟩ := Prod.mk.inj hkey
  simp only [wrapped, List.mem_flatMap]
  rcases hp with rfl | rfl
  · exact ⟨_, ⟨(v, text), hv, List.mem_cons_self⟩, hstart⟩
  · exact ⟨_, ⟨(v, text), hv, List.mem_cons_of_mem _ List.mem_cons_self⟩, hstop⟩

/-- The edits of plain insertions are insertions at their offsets. -/
private theorem mem_inserted {insertions : List Insertion} {e : Edit}
    (h : e ∈ inserted insertions) : e.start = e.stop ∧ ∃ i ∈ insertions, e.start ∈ i.offsets := by
  obtain ⟨i, hi, rfl⟩ := List.mem_map.1 h
  obtain ⟨hmem, hplain⟩ := List.mem_filter.1 (mem_of_mem_distinctBy hi)
  refine ⟨rfl, i, hmem, ?_⟩
  rw [Insertion.offsets, Option.isNone_iff_eq_none.1 hplain]
  exact List.mem_singleton_self _

/-- Each plain insertion has an edit. -/
private theorem exists_mem_inserted {insertions : List Insertion} {i : Insertion}
    (hi : i ∈ insertions)
    (hplain : i.wrap = none) : ∃ e ∈ inserted insertions, e.start = i.offset := by
  have hmem : i ∈ insertions.filter (·.wrap.isNone) :=
    List.mem_filter.2 ⟨hi, by rw [hplain]; rfl⟩
  obtain ⟨j, hj, hkey⟩ := exists_mem_distinctBy Insertion.offset hmem
  exact ⟨_, List.mem_map_of_mem hj, hkey⟩

/-- The edits for insertions are empty and stand at the offsets of these. -/
theorem mem_insertionEdits {insertions : List Insertion} {e : Edit}
    (h : e ∈ wrapped insertions ++ inserted insertions) :
    e.start = e.stop ∧ ∃ i ∈ insertions, e.start ∈ i.offsets :=
  (List.mem_append.1 h).elim mem_wrapped mem_inserted

/-- At every offset of an insertion there is an edit. -/
theorem exists_mem_insertionEdits {insertions : List Insertion} {i : Insertion}
    (hi : i ∈ insertions) {p : Nat} (hp : p ∈ i.offsets) :
    ∃ e ∈ wrapped insertions ++ inserted insertions, e.start = p := by
  rw [Insertion.offsets] at hp
  split at hp
  next w hw =>
    simp only [List.mem_cons, List.not_mem_nil, or_false] at hp
    obtain ⟨e, he, hstart⟩ := exists_mem_wrapped hi hw hp
    exact ⟨e, List.mem_append_left _ he, hstart⟩
  next hw =>
    obtain ⟨e, he, hstart⟩ := exists_mem_inserted hi hw
    exact ⟨e, List.mem_append_right _ he, hstart.trans (List.mem_singleton.1 hp).symm⟩

/-- The import declarations that differ from what is in the file. -/
def changedEntries (parts : List FixParts) : List ImportEntry :=
  (mergeEntries (parts.flatMap (·.imports))).filter (·.changesFile)

/-- All that is replaced: changed import declarations and fresh values. -/
def replacements (parts : List FixParts) : List Edit :=
  (changedEntries parts).filterMap importReplacement? ++ parts.flatMap (·.replacements)

/-- All that is inserted: new import declarations and what the fixes insert. -/
def insertions (s : Source) (parts : List FixParts) : List Insertion :=
  (changedEntries parts).filterMap (importInsertion? s) ++ parts.flatMap (·.insertions)

/-- Parts can be put together exactly if none of their edits overlap. -/
theorem isOk_assemble_iff_overlap? (s : Source) (parts : List FixParts) :
    (assemble s parts).isOk = true ↔ overlap? (edits s parts) = none := by
  simp only [assemble]
  cases overlap? (edits s parts) <;> simp [Except.isOk, Except.toBool]

/-- A patch is assembled exactly if its replacements lie apart and nothing is inserted strictly
inside one of them. -/
theorem isOk_assemble_iff {s : Source} {parts : List FixParts}
    (h : ∀ r ∈ replacements parts, r.start ≤ r.stop) :
    (assemble s parts).isOk = true ↔
      (∀ r ∈ replacements parts, ∀ r' ∈ replacements parts, r ≠ r' → r.Apart r') ∧
        ∀ r ∈ replacements parts, ∀ i ∈ insertions s parts, ∀ p ∈ i.offsets,
          r.stop ≤ p ∨ p ≤ r.start := by
  have hedits : edits s parts = join (ordered (distinct (replacements parts) ++
      (wrapped (distinct (insertions s parts)) ++ inserted (distinct (insertions s parts))))) := by
    rw [← List.append_assoc]
    rfl
  have hins {e : Edit} (he : e ∈ wrapped (distinct (insertions s parts)) ++
      inserted (distinct (insertions s parts))) := mem_insertionEdits he
  have hle : ∀ e ∈ distinct (replacements parts) ++
      (wrapped (distinct (insertions s parts)) ++ inserted (distinct (insertions s parts))),
      e.start ≤ e.stop := by
    intro e he
    rcases List.mem_append.1 he with he | he
    · exact h e (mem_distinct.1 he)
    · exact Nat.le_of_eq (hins he).1
  rw [isOk_assemble_iff_overlap?, hedits, overlap?_join_ordered_eq_none_iff hle,
    List.pairwise_append]
  constructor
  · rintro ⟨hreplacements, -, hcross⟩
    constructor
    · intro r hr r' hr' hne
      have : Std.Symm Edit.Apart := ⟨fun _ _ => Edit.Apart.symm⟩
      exact hreplacements.forall (mem_distinct.2 hr) (mem_distinct.2 hr') hne
    · intro r hr i hi p hp
      obtain ⟨e, he, rfl⟩ := exists_mem_insertionEdits (mem_distinct.2 hi) hp
      have hapart := hcross r (mem_distinct.2 hr) e he
      rw [Edit.Apart, ← (hins he).1] at hapart
      exact hapart
  · rintro ⟨hreplacements, hcross⟩
    refine ⟨?_, ?_, ?_⟩
    · refine (pairwise_distinctBy id _).imp_of_mem ?_
      intro r r' hr hr' hne
      exact hreplacements r (mem_distinct.1 hr) r' (mem_distinct.1 hr') hne
    · -- Insertions replace nothing, so they never overlap.
      refine List.pairwise_of_forall_mem_list ?_
      intro e he f hf
      have he' := (hins he).1
      have hf' := (hins hf).1
      rw [Edit.Apart]
      omega
    · intro r hr e he
      obtain ⟨heq, i, hi, hp⟩ := hins he
      have hside := hcross r (mem_distinct.1 hr) i (mem_distinct.1 hi) _ hp
      rw [Edit.Apart, ← heq]
      exact hside

end Patch

end StableProps

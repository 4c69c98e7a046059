import Mathlib.Data.List.Forall2
import StableProps.Proofs.Distinct
import StableProps.Proofs.Import.Additions
import StableProps.Proofs.Patch.NormalForm

/-!
# Repetition and order of fixes

Fixes that are given once more change nothing: what they replace and insert is there already, and
an import declaration is merged with what it was merged with before. Fixes without imports may also
come in another order. Then the same ranges are edited and the same texts are put for what is
replaced; only texts that are inserted at one offset, and the declarations that one block takes in,
may stand in another order. For this, ranges must not end before they start, and fixes that make
one body into a block must agree about its indentation.
-/

namespace StableProps

/-! ## Merging twice -/

namespace ImportEntry

/-- An entry that others are merged into, field by field. -/
theorem foldl_merge (es : List ImportEntry) (e : ImportEntry) :
    es.foldl ImportEntry.merge e = { e with
      specifier := (es.map (·.specifier)).foldl Specifier.prefer e.specifier
      added := (es.flatMap (·.added)).foldl (addNew e.named) e.added
      addedDefault := (es.map (·.addedDefault)).foldl firstName e.addedDefault
      starName := (es.map (·.starName)).foldl firstName e.starName } := by
  induction es generalizing e with
  | nil => rfl
  | cons f es ih =>
    rw [List.foldl_cons, ih, List.flatMap_cons, List.foldl_append]
    rfl

/-- After names are added, the declaration has those it had and those that were to be added. -/
theorem mem_foldl_addNew {named names added : List ImportedName} {name : String} :
    name ∈ (named ++ names.foldl (addNew named) added).map (·.localName) ↔
      name ∈ (named ++ added).map (·.localName) ∨ name ∈ names.map (·.localName) := by
  induction names generalizing added with
  | nil => simp
  | cons n names ih =>
    rw [List.foldl_cons, ih, List.map_cons, List.mem_cons, ← or_assoc]
    refine or_congr_left ?_
    rw [addNew]
    split
    next htaken =>
      simp only [List.any_eq_true, beq_iff_eq] at htaken
      obtain ⟨k, hk, hname⟩ := htaken
      refine (or_iff_left_of_imp ?_).symm
      rintro rfl
      exact List.mem_map.2 ⟨k, hk, hname⟩
    next => rw [← List.append_assoc, List.map_append, List.mem_append, List.map_singleton,
      List.mem_singleton]

/-- Names that are there are not added. -/
theorem foldl_addNew_eq_self {named names added : List ImportedName}
    (h : ∀ n ∈ names, n.localName ∈ (named ++ added).map (·.localName)) :
    names.foldl (addNew named) added = added := by
  induction names with
  | nil => rfl
  | cons n names ih =>
    have htaken : (named ++ added).any (·.localName == n.localName) = true := by
      obtain ⟨k, hk, hname⟩ := List.mem_map.1 (h n List.mem_cons_self)
      exact List.any_eq_true.2 ⟨k, hk, beq_iff_eq.2 hname⟩
    rw [List.foldl_cons, addNew, if_pos htaken]
    exact ih fun k hk => h k (List.mem_cons_of_mem _ hk)

/-- Entries merged into what they were merged to before change nothing. -/
theorem foldl_merge_again (e : ImportEntry) (rest : List ImportEntry) :
    (e :: rest).foldl ImportEntry.merge (rest.foldl ImportEntry.merge e) =
      rest.foldl ImportEntry.merge e := by
  have again {α : Type} {op : α → α → α} (hassoc : ∀ a b c, op (op a b) c = op a (op b c))
      (hself : ∀ a, op a a = a) (a : α) (as : List α) :
      (a :: as).foldl op (as.foldl op a) = as.foldl op a := by
    have : Std.Associative op := ⟨hassoc⟩
    calc (a :: as).foldl op (as.foldl op a)
        = as.foldl op (op (as.foldl op a) a) := rfl
      _ = op (as.foldl op a) (as.foldl op a) := List.foldl_assoc
      _ = as.foldl op a := hself _
  have hadded : ((e :: rest).flatMap (·.added)).foldl (addNew e.named)
      ((rest.flatMap (·.added)).foldl (addNew e.named) e.added) =
        (rest.flatMap (·.added)).foldl (addNew e.named) e.added := by
    refine foldl_addNew_eq_self fun n hn => mem_foldl_addNew.2 ?_
    rw [List.flatMap_cons] at hn
    rcases List.mem_append.1 hn with hn | hn
    · exact .inl (List.mem_map_of_mem (List.mem_append_right _ hn))
    · exact .inr (List.mem_map_of_mem hn)
  rw [foldl_merge (e :: rest), foldl_merge rest e]
  simp only [hadded, List.map_cons, again Specifier.prefer_assoc Specifier.prefer_self,
    again firstName_assoc firstName_self]

end ImportEntry

/-- Lists with the same keys in the same order, none of them twice, in which the same is found under
every key. -/
theorem eq_of_find?_eq {α κ : Type} [DecidableEq κ] {l l' : List (κ × α)}
    (hkeys : l.map (·.1) = l'.map (·.1)) (hnodup : (l.map (·.1)).Nodup)
    (hfind : ∀ k, (l.find? (·.1 = k)).map (·.2) = (l'.find? (·.1 = k)).map (·.2)) : l = l' := by
  induction l generalizing l' with
  | nil => exact (List.map_eq_nil_iff.1 hkeys.symm).symm
  | cons x l ih =>
    cases l' with
    | nil => cases hkeys
    | cons y l' =>
      obtain ⟨k, a⟩ := x
      obtain ⟨k', a'⟩ := y
      obtain ⟨hkey, hrest⟩ := List.cons.inj hkeys
      obtain rfl : k = k' := hkey
      obtain ⟨hk, hl⟩ := List.nodup_cons.1 hnodup
      have hnone {m : List (κ × α)} (hm : k ∉ m.map (·.1)) : m.find? (·.1 = k) = none := by
        refine List.find?_eq_none.2 fun z hz heq => hm ?_
        exact List.mem_map.2 ⟨z, hz, of_decide_eq_true heq⟩
      have hvalue : a = a' := by simpa using hfind k
      have htail : l = l' := by
        refine ih hrest hl fun j => ?_
        by_cases hj : k = j
        · subst hj
          rw [hnone hk, hnone (hrest ▸ hk)]
        · simpa [hj] using hfind j
      rw [hvalue, htail]

/-- A change of what is there keeps all keys and their order. -/
theorem map_fst_upsert {α κ : Type} [DecidableEq κ] {key : κ} {entries : List (κ × α)}
    (h : key ∈ entries.map (·.1)) (change : Option α → α) :
    (upsert key change entries).map (·.1) = entries.map (·.1) := by
  induction entries with
  | nil => cases h
  | cons x rest ih =>
    rw [upsert]
    split
    · rfl
    next hne =>
      rw [List.map_cons, List.map_cons, ih ((List.mem_cons.1 h).resolve_left (Ne.symm hne))]

namespace Patch

/-! ## Fixes given twice -/

private theorem mergeKey_mem_mergeFold {es : List ImportEntry} {e : ImportEntry} (he : e ∈ es) :
    mergeKey e ∈ (mergeFold es).map (·.1) := by
  obtain ⟨f, hf, hkey⟩ := exists_mem_mergeEntries he
  obtain ⟨x, hx, rfl⟩ := List.mem_map.1 hf
  exact List.mem_map.2 ⟨x, hx, (mem_mergeFold hx).1.trans hkey⟩

/-- Entries for declarations that are there bring no new ones. -/
theorem map_fst_foldl_upsert {es : List ImportEntry}
    {merged : List ((String × Option (Nat × Nat)) × ImportEntry)}
    (h : ∀ e ∈ es, mergeKey e ∈ merged.map (·.1)) :
    (es.foldl (fun merged e => upsert (mergeKey e) (mergeInto e) merged) merged).map (·.1) =
      merged.map (·.1) := by
  induction es generalizing merged with
  | nil => rfl
  | cons e es ih =>
    have hkeys := map_fst_upsert (h e List.mem_cons_self) (mergeInto e)
    rw [List.foldl_cons, ih, hkeys]
    intro f hf
    rw [hkeys]
    exact h f (List.mem_cons_of_mem _ hf)

/-- Entries that come again change nothing. -/
private theorem mergeFold_append_self (es : List ImportEntry) : mergeFold
    (es ++ es) = mergeFold es := by
  have hkeys : (mergeFold (es ++ es)).map (·.1) = (mergeFold es).map (·.1) := by
    rw [mergeFold, List.foldl_append]
    exact map_fst_foldl_upsert fun e he => mergeKey_mem_mergeFold he
  refine eq_of_find?_eq hkeys ?_ fun k => ?_
  · exact List.pairwise_map.2 (pairwise_mergeFold _)
  · rw [find?_mergeFold, find?_mergeFold, List.filter_append]
    cases es.filter (mergeKey · = k) with
    | nil => rfl
    | cons e rest =>
      calc ((e :: rest) ++ (e :: rest)).foldl (fun o x => some (mergeInto x o)) none
          = (rest ++ e :: rest).foldl (fun o x => some (mergeInto x o)) (some e) := rfl
        _ = some ((e :: rest).foldl ImportEntry.merge (rest.foldl ImportEntry.merge e)) := by
          rw [foldl_mergeInto, List.foldl_append]
        _ = some (rest.foldl ImportEntry.merge e) := by rw [ImportEntry.foldl_merge_again]
        _ = (e :: rest).foldl (fun o x => some (mergeInto x o)) none :=
          (foldl_mergeInto rest e).symm

private theorem mergeEntries_append_self (es : List ImportEntry) :
    mergeEntries (es ++ es) = mergeEntries es :=
  congrArg (List.map Prod.snd) (mergeFold_append_self es)

private theorem changedEntries_append_self (parts : List FixParts) :
    changedEntries (parts ++ parts) = changedEntries parts := by
  rw [changedEntries, List.flatMap_append, mergeEntries_append_self, changedEntries]

/-- Elements behind others are not looked at twice. -/
theorem distinct_append_append_self {α : Type} [DecidableEq α] (as bs : List α) :
    distinct (as ++ (bs ++ bs)) = distinct (as ++ bs) := by
  rw [← List.append_assoc]
  refine distinctBy_append_of_subset ?_
  rw [List.map_id, List.map_id]
  exact List.subset_append_right as bs

/-- Fixes that are given twice are done once. -/
theorem edits_append_self (s : Source) (parts : List FixParts) :
    edits s (parts ++ parts) = edits s parts := by
  have hreplacements :
      distinct (replacements (parts ++ parts)) = distinct (replacements parts) := by
    rw [replacements, changedEntries_append_self, List.flatMap_append, distinct_append_append_self,
      replacements]
  have hinsertions : distinct (insertions s (parts ++ parts)) = distinct (insertions s parts) := by
    rw [insertions, changedEntries_append_self, List.flatMap_append, distinct_append_append_self,
      insertions]
  rw [edits_eq, edits_eq, hreplacements, hinsertions]

/-- Parts that come again change nothing. -/
private theorem assemble_append_self (s : Source) (parts : List FixParts) :
    assemble s (parts ++ parts) = assemble s parts := by
  rw [assemble, assemble, edits_append_self]

end Patch

/-! ## Texts in another order -/

/-- A text inserted by fixes, and what other orders of the fixes make of it: the same text, or the
opening of a block whose declarations stand in another order. -/
inductive SameText : String → String → Prop where
  | refl (text : String) : SameText text text
  | opening {b c : NewBlock} (wrap : b.wrap = c.wrap)
      (declarations : b.declarations.Perm c.declarations) : SameText b.opening c.opening

instance : Std.Refl SameText := ⟨SameText.refl⟩

/-- Texts, and the same texts in another order. -/
def SameTexts (texts texts' : List String) : Prop :=
  ∃ l : List String, l.Perm texts' ∧ List.Forall₂ SameText texts l

namespace SameTexts

variable {texts texts' others others' : List String}

private theorem of_perm (h : texts.Perm texts') : SameTexts texts texts' :=
  ⟨texts, h, List.forall₂_refl texts⟩

/-- Texts in a row are the same if their parts are. -/
theorem append (h : SameTexts texts texts') (h' : SameTexts others others') :
    SameTexts (texts ++ others) (texts' ++ others') := by
  obtain ⟨l, hperm, hsame⟩ := h
  obtain ⟨l', hperm', hsame'⟩ := h'
  exact ⟨l ++ l', hperm.append hperm', List.rel_append hsame hsame'⟩

private theorem eq_nil (h : SameTexts texts []) : texts = [] := by
  obtain ⟨l, hperm, hsame⟩ := h
  rw [hperm.eq_nil, List.forall₂_nil_right_iff] at hsame
  exact hsame

end SameTexts

/-! ## Fixes in another order -/

/-- The range of an edit. -/
def Edit.range (e : Edit) : Nat × Nat := (e.start, e.stop)

/-- A range starts before another one, or starts with it and ends before it. -/
def RangeEarlier (r r' : Nat × Nat) : Prop := r.1 < r'.1 ∨ r.1 = r'.1 ∧ r.2 < r'.2

/-- No two ranges are each earlier than the other. -/
private theorem RangeEarlier.asymm {r r' : Nat × Nat} (h : RangeEarlier r r')
    (h' : RangeEarlier r' r) : False := by
  rw [RangeEarlier] at h h'
  omega

namespace Patch

/-- Fixes that may come in any order: they bring no imports, no range that they replace ends before
it starts, and those that make one body into a block agree about its indentation. -/
structure Exchangeable (parts : List FixParts) : Prop where
  imports : ∀ x ∈ parts, x.imports = []
  ordered : ∀ x ∈ parts, ∀ r ∈ x.replacements, r.start ≤ r.stop
  agree : ∀ v ∈ (parts.flatMap (·.insertions)).filterMap (·.wrap),
    ∀ w ∈ (parts.flatMap (·.insertions)).filterMap (·.wrap), v.range = w.range → v = w

/-- Edits made of fixes, and edits made of the same fixes in another order. -/
structure Rearranged (s : Source) (parts parts' : List FixParts) (edits edits' : List Edit) :
    Prop where
  /-- The same ranges are edited. -/
  ranges : edits.map Edit.range = edits'.map Edit.range
  /-- The same texts are put for what is replaced. -/
  replaced : edits.filter (!·.isInsertion) = edits'.filter (!·.isInsertion)
  /-- The texts that are inserted at an offset stand in the order of the fixes. -/
  inserted : ∀ p, edits.filter (Edit.insertsAt p) = joinedAt p (textsAt s parts p) ∧
    edits'.filter (Edit.insertsAt p) = joinedAt p (textsAt s parts' p) ∧
    SameTexts (textsAt s parts p) (textsAt s parts' p)

variable {s : Source} {parts parts' : List FixParts}

/-- Parts stay exchangeable in another order. -/
private theorem Exchangeable.of_perm (h : Exchangeable parts) (hperm : parts.Perm parts') :
    Exchangeable parts' where
  imports x hx := h.imports x (hperm.mem_iff.2 hx)
  ordered x hx := h.ordered x (hperm.mem_iff.2 hx)
  agree v hv w hw := by
    have hbodies := (hperm.flatMap_right (·.insertions)).filterMap (·.wrap)
    exact h.agree v (hbodies.mem_iff.2 hv) w (hbodies.mem_iff.2 hw)

/-- Parts that can be exchanged change no imports. -/
private theorem Exchangeable.changedEntries_eq_nil (h : Exchangeable parts) :
    changedEntries parts = [] := by
  have himports : parts.flatMap (·.imports) = [] := List.flatMap_eq_nil_iff.2 h.imports
  rw [changedEntries, himports]
  rfl

/-- Their replacements are those of each of them. -/
private theorem Exchangeable.replacements_eq (h : Exchangeable parts) :
    replacements parts = parts.flatMap (·.replacements) := by
  rw [replacements, h.changedEntries_eq_nil, List.filterMap_nil, List.nil_append]

/-- Their insertions are those of each of them. -/
private theorem Exchangeable.insertions_eq (h : Exchangeable parts) (s : Source) :
    insertions s parts = parts.flatMap (·.insertions) := by
  rw [insertions, h.changedEntries_eq_nil, List.filterMap_nil, List.nil_append]

private theorem Exchangeable.perm_replacements (h : Exchangeable parts)
    (hperm : parts.Perm parts') : (replacements parts).Perm (replacements parts') := by
  rw [h.replacements_eq, (h.of_perm hperm).replacements_eq]
  exact hperm.flatMap_right _

private theorem Exchangeable.perm_insertions (h : Exchangeable parts) (hperm : parts.Perm parts')
    (s : Source) : (insertions s parts).Perm (insertions s parts') := by
  rw [h.insertions_eq, (h.of_perm hperm).insertions_eq]
  exact hperm.flatMap_right _

theorem Exchangeable.start_le_stop (h : Exchangeable parts) :
    ∀ r ∈ replacements parts, r.start ≤ r.stop := by
  intro r hr
  rw [h.replacements_eq] at hr
  obtain ⟨x, hx, hr⟩ := List.mem_flatMap.1 hr
  exact h.ordered x hx r hr

/-- The range of a body that becomes a block tells how it is indented. -/
theorem Exchangeable.wrap_eq (h : Exchangeable parts) {v w : BodyWrap}
    (hv : v ∈ (distinct (insertions s parts)).filterMap (·.wrap))
    (hw : w ∈ (distinct (insertions s parts)).filterMap (·.wrap)) (hrange : v.range = w.range) :
    v = w := by
  have hbody {u : BodyWrap} (hu : u ∈ (distinct (insertions s parts)).filterMap (·.wrap)) :
      u ∈ (parts.flatMap (·.insertions)).filterMap (·.wrap) := by
    obtain ⟨i, hi, hu⟩ := List.mem_filterMap.1 hu
    rw [mem_distinct, h.insertions_eq] at hi
    exact List.mem_filterMap.2 ⟨i, hi, hu⟩
  exact h.agree v (hbody hv) w (hbody hw) hrange

/-- Whether a patch can be assembled is seen from all fixes together. -/
theorem isOk_assemble_of_perm (h : Exchangeable parts) (hperm : parts.Perm parts') (s : Source) :
    (assemble s parts).isOk = (assemble s parts').isOk := by
  rw [Bool.eq_iff_iff, isOk_assemble_iff h.start_le_stop,
    isOk_assemble_iff (h.of_perm hperm).start_le_stop]
  simp only [(h.perm_replacements hperm).mem_iff, (h.perm_insertions hperm s).mem_iff]

/-! ## Ranges -/

/-- In a patch no two edits have the same range, and ranges are in order. -/
theorem pairwise_earlier (h : ∀ r ∈ replacements parts, r.start ≤ r.stop)
    (hok : overlap? (edits s parts) = none) :
    (edits s parts).Pairwise fun e f => RangeEarlier e.range f.range := by
  have hstrict : (edits s parts).Pairwise strictlyBefore := pairwise_join (pairwise_ordered _)
  refine (hstrict.and (isNormalForm_edits h hok).apart).imp_of_mem ?_
  rintro e f he hf ⟨⟨hbefore, hsingle⟩, hapart⟩
  have he := start_le_stop_of_mem_edits h he
  have hf := start_le_stop_of_mem_edits h hf
  rw [before_iff] at hbefore
  rw [Edit.isInsertion_iff, Edit.isInsertion_iff] at hsingle
  rw [RangeEarlier, Edit.range, Edit.range]
  omega

/-- Edits that do not overlap have different ranges. -/
private theorem nodup_map_range (h : ∀ r ∈ replacements parts, r.start ≤ r.stop)
    (hok : overlap? (edits s parts) = none) : ((edits s parts).map Edit.range).Nodup := by
  refine (List.pairwise_map.2 (pairwise_earlier h hok)).imp ?_
  rintro r _ hearlier rfl
  exact hearlier.asymm hearlier

/-! ## Blocks -/

/-- The block for a body, with the declarations of all insertions into it. -/
def blockOf (insertions : List Insertion) (w : BodyWrap) : NewBlock where
  wrap := w
  declarations := (insertions.filter fun i => i.wrap.any (·.range = w.range)).map (·.text)

/-- Insertions in another order make the same blocks, with declarations in another order. -/
theorem forall₂_textsAt {insertions insertions' : List Insertion}
    (hperm : insertions.Perm insertions') (p : Nat) (ws : List BodyWrap) :
    List.Forall₂ SameText (ws.flatMap fun w => NewBlock.textsAt p (blockOf insertions w))
      (ws.flatMap fun w => NewBlock.textsAt p (blockOf insertions' w)) := by
  induction ws with
  | nil => exact .nil
  | cons w ws ih =>
    rw [List.flatMap_cons, List.flatMap_cons]
    refine List.rel_append ?_ ih
    have hopening : SameText (blockOf insertions w).opening (blockOf insertions' w).opening :=
      .opening rfl ((hperm.filter _).map _)
    refine List.rel_append ?_ (List.forall₂_refl _)
    change List.Forall₂ SameText (if w.start = p then _ else _) (if w.start = p then _ else _)
    by_cases hstart : w.start = p
    · rw [if_pos hstart, if_pos hstart]
      exact .cons hopening .nil
    · rw [if_neg hstart, if_neg hstart]
      exact .nil

/-- In another order, the texts of the blocks at an offset are the same. -/
private theorem Exchangeable.sameTexts_blocks (h : Exchangeable parts) (hperm : parts.Perm parts')
    (p : Nat) : SameTexts
      ((blocks (distinct (insertions s parts))).flatMap (NewBlock.textsAt p))
      ((blocks (distinct (insertions s parts'))).flatMap (NewBlock.textsAt p)) := by
  have hinsertions := perm_distinct (h.perm_insertions hperm s)
  have hblocks {parts : List FixParts} (h : Exchangeable parts) :
      blocks (distinct (insertions s parts)) =
        (distinct ((distinct (insertions s parts)).filterMap (·.wrap))).map
          (blockOf (distinct (insertions s parts))) := by
    rw [blocks, distinctBy_eq_distinct fun v hv w hw => h.wrap_eq hv hw]
    rfl
  rw [hblocks h, hblocks (h.of_perm hperm), List.flatMap_map, List.flatMap_map]
  refine ⟨_, ?_, forall₂_textsAt hinsertions p _⟩
  exact (perm_distinct (hinsertions.filterMap _)).flatMap_right _

/-- At every offset fixes in another order insert the same texts in another order. -/
theorem Exchangeable.sameTexts_textsAt (h : Exchangeable parts) (hperm : parts.Perm parts')
    (p : Nat) : SameTexts (textsAt s parts p) (textsAt s parts' p) := by
  refine (SameTexts.append ?_ (h.sameTexts_blocks hperm p)).append ?_
  · exact .of_perm (((perm_distinct (h.perm_replacements hperm)).filter _).map _)
  · exact .of_perm (((perm_distinct (h.perm_insertions hperm s)).filter _).map _)

/-! ## The same edits -/

/-- Every range that is edited is also edited by fixes in another order. -/
theorem Exchangeable.exists_range (h : Exchangeable parts) (hperm : parts.Perm parts')
    {e : Edit} (he : e ∈ edits s parts) : ∃ f ∈ edits s parts', f.range = e.range := by
  by_cases hinsertion : e.isInsertion = true
  · have hinserts : e.insertsAt e.start = true :=
      Edit.insertsAt_iff.2 ⟨rfl, (Edit.isInsertion_iff.1 hinsertion).symm⟩
    have hin : e ∈ joinedAt e.start (textsAt s parts e.start) := by
      rw [← filter_insertsAt_edits]
      exact List.mem_filter.2 ⟨he, hinserts⟩
    have htexts : textsAt s parts e.start ≠ [] := by
      intro hnil
      rw [hnil] at hin
      cases hin
    have htexts' : textsAt s parts' e.start ≠ [] := by
      intro hnil
      have hsame := h.sameTexts_textsAt (s := s) hperm e.start
      rw [hnil] at hsame
      exact htexts hsame.eq_nil
    have hmem : ⟨e.start, e.start, String.join (textsAt s parts' e.start)⟩ ∈
        (edits s parts').filter (Edit.insertsAt e.start) := by
      rw [filter_insertsAt_edits, joinedAt, List.isEmpty_eq_false_iff.2 htexts']
      exact List.mem_singleton_self _
    refine ⟨_, (List.mem_filter.1 hmem).1, ?_⟩
    exact congrArg (Prod.mk e.start) (Edit.isInsertion_iff.1 hinsertion)
  · have hmem : e ∈ (edits s parts).filter (!·.isInsertion) :=
      List.mem_filter.2 ⟨he, by simpa using hinsertion⟩
    rw [(filter_not_isInsertion_edits s parts).mem_iff,
      ((perm_distinct (h.perm_replacements hperm)).filter _).mem_iff,
      ← (filter_not_isInsertion_edits s parts').mem_iff] at hmem
    exact ⟨e, (List.mem_filter.1 hmem).1, rfl⟩

/-- Patches made of the same fixes edit the same ranges. -/
theorem Exchangeable.map_range_eq (h : Exchangeable parts) (hperm : parts.Perm parts')
    (hok : overlap? (edits s parts) = none) (hok' : overlap? (edits s parts') = none) :
    (edits s parts).map Edit.range = (edits s parts').map Edit.range := by
  have h' := h.of_perm hperm
  refine List.Perm.eq_of_pairwise ?_ (List.pairwise_map.2 (pairwise_earlier h.start_le_stop hok))
    (List.pairwise_map.2 (pairwise_earlier h'.start_le_stop hok')) ?_
  · intro r r' _ _ hearlier hearlier'
    exact (hearlier.asymm hearlier').elim
  · rw [List.perm_ext_iff_of_nodup (nodup_map_range h.start_le_stop hok)
      (nodup_map_range h'.start_le_stop hok')]
    intro range
    constructor <;> intro hrange <;> obtain ⟨e, he, rfl⟩ := List.mem_map.1 hrange
    · obtain ⟨f, hf, hrange⟩ := h.exists_range hperm he
      exact List.mem_map.2 ⟨f, hf, hrange⟩
    · obtain ⟨f, hf, hrange⟩ := h'.exists_range hperm.symm he
      exact List.mem_map.2 ⟨f, hf, hrange⟩

/-- In another order, the edits that remove anything are the same. -/
private theorem Exchangeable.filter_not_isInsertion_eq (h : Exchangeable parts)
    (hperm : parts.Perm parts') (hok : overlap? (edits s parts) = none)
    (hok' : overlap? (edits s parts') = none) :
    (edits s parts).filter (!·.isInsertion) = (edits s parts').filter (!·.isInsertion) := by
  refine List.Perm.eq_of_pairwise ?_ ((pairwise_earlier h.start_le_stop hok).filter _)
    ((pairwise_earlier (h.of_perm hperm).start_le_stop hok').filter _) ?_
  · intro e f _ _ hef hfe
    exact (hef.asymm hfe).elim
  · exact (filter_not_isInsertion_edits s parts).trans
      (((perm_distinct (h.perm_replacements hperm)).filter _).trans
        (filter_not_isInsertion_edits s parts').symm)

/-- Fixes given twice make the patch that they make once. Fixes in another order make a patch
exactly if they made one before, with the same ranges and the same texts, of which only those
inserted at one offset may stand in another order. -/
theorem assemble_repeated_or_rearranged (s : Source) :
    (∀ parts, assemble s (parts ++ parts) = assemble s parts) ∧
      ∀ parts parts', Exchangeable parts → parts.Perm parts' →
        (assemble s parts).isOk = (assemble s parts').isOk ∧
          ∀ edits edits', assemble s parts = .ok edits → assemble s parts' = .ok edits' →
            Rearranged s parts parts' edits edits' := by
  refine ⟨assemble_append_self s, fun parts parts' h hperm => ?_⟩
  refine ⟨isOk_assemble_of_perm h hperm s, fun edits edits' hedits hedits' => ?_⟩
  have hok {parts : List FixParts} {edits : List Edit} (h : assemble s parts = .ok edits) :
      overlap? (Patch.edits s parts) = none := by
    rw [← isOk_assemble_iff_overlap?, h]
    rfl
  obtain rfl := eq_edits_of_assemble hedits
  obtain rfl := eq_edits_of_assemble hedits'
  exact {
    ranges := h.map_range_eq hperm (hok hedits) (hok hedits')
    replaced := h.filter_not_isInsertion_eq hperm (hok hedits) (hok hedits')
    inserted := fun p => ⟨filter_insertsAt_edits s parts p, filter_insertsAt_edits s parts' p,
      h.sameTexts_textsAt hperm p⟩ }

/-- The fixes of both values of a component whose hook is imported already. -/
def importedHookFixes : List FixParts := hookFixes.map fun x => { x with imports := [] }

set_option maxRecDepth 100000 in
/-- Of two fixes of one component either may come first. -/
theorem rearranged_importedHookFixes :
    Exchangeable importedHookFixes ∧ importedHookFixes.Perm importedHookFixes.reverse ∧
      ∃ edits edits', assemble twoValues importedHookFixes = .ok edits ∧
        assemble twoValues importedHookFixes.reverse = .ok edits' ∧
        Rearranged twoValues importedHookFixes importedHookFixes.reverse edits edits' := by
  have h : Exchangeable importedHookFixes :=
    ⟨by decide +kernel, by decide +kernel, by decide +kernel⟩
  have hperm := (List.reverse_perm importedHookFixes).symm
  obtain ⟨hok, hrearranged⟩ := (assemble_repeated_or_rearranged twoValues).2 _ _ h hperm
  have hfirst : (assemble twoValues importedHookFixes).isOk = true := by decide +kernel
  refine ⟨h, hperm, ?_⟩
  cases hedits : assemble twoValues importedHookFixes with
  | error e =>
    rw [hedits] at hfirst
    cases hfirst
  | ok edits =>
    cases hedits' : assemble twoValues importedHookFixes.reverse with
    | error e =>
      rw [hok, hedits'] at hfirst
      cases hfirst
    | ok edits' => exact ⟨edits, edits', rfl, rfl, hrearranged edits edits' hedits hedits'⟩

/-- A component that draws one value. -/
def oneValue : Source := .parsed (Language.snippetPath .tsx) .tsx "const c = () => x;\n"

/-- Fixes that make one body into a block and take it to be indented differently. -/
def indentedTwice : List FixParts :=
  [{ insertions := [{ offset := 16, text := "a", wrap := some ⟨16, 17, "", "  "⟩ }] },
    { insertions := [{ offset := 16, text := "b", wrap := some ⟨16, 17, "  ", "  "⟩ }] }]

/-- Fixes of which one replaces a range that ends before it starts. -/
def backwards : List FixParts :=
  [{ replacements := [{ start := 5, stop := 3, text := "a" }] },
    { replacements := [{ start := 5, stop := 8, text := "b" }] }]

set_option maxRecDepth 100000 in
/-- Order matters where fixes do not agree about a body: the first one says how its block ends. It
also matters where a range ends before it starts: only neighbours are checked for overlaps. -/
theorem not_rearranged_of_perm :
    ¬(∀ (s : Source) (parts parts' : List FixParts) (edits edits' : List Edit),
      (∀ x ∈ parts, x.imports = []) → parts.Perm parts' →
      assemble s parts = .ok edits → assemble s parts' = .ok edits' →
      edits.map (fun e => (e.start, e.text.length)) =
        edits'.map fun e => (e.start, e.text.length)) ∧
    ¬∀ (s : Source) (parts parts' : List FixParts), (∀ x ∈ parts, x.imports = []) →
      parts.Perm parts' → (assemble s parts).isOk = (assemble s parts').isOk := by
  constructor
  · intro hall
    have hlengths := hall oneValue indentedTwice indentedTwice.reverse
      [⟨16, 16, "\x7b\n  a\n  b\n  return "⟩, ⟨17, 17, ";\n\x7d"⟩]
      [⟨16, 16, "\x7b\n    b\n    a\n    return "⟩, ⟨17, 17, ";\n  \x7d"⟩]
      (by decide +kernel) (List.reverse_perm _).symm (by rfl) (by rfl)
    exact absurd hlengths (by decide +kernel)
  · intro hall
    have hok := hall oneValue backwards backwards.reverse (by decide +kernel)
      (List.reverse_perm _).symm
    exact absurd hok (by decide +kernel)

end Patch

end StableProps

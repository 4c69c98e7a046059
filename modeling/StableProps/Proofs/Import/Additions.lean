import Mathlib.Data.List.Nodup
import StableProps.Proofs.Import.Entry

/-!
# Names that imports add to a file

An entry adds names to its declaration: some in the braces, and a default. Entries for one
declaration are merged, which keeps every name for the braces once, and of the defaults the first.
So what is added in the end can be read off the entries as they were before merging.
-/

namespace StableProps

/-- A name that is added to a declaration, as its default or in its braces. -/
structure Addition where
  /-- The declaration, by its module and its range in the file. -/
  declaration : String × Option (Nat × Nat)
  isDefault : Bool
  name : String
  deriving DecidableEq

/-- The place of an addition: a declaration has one for its default, and one for every name in its
braces. -/
def Addition.slot (a : Addition) : (String × Option (Nat × Nat)) × Option String :=
  (a.declaration, if a.isDefault then none else some a.name)

namespace ImportEntry

/-- The default that an entry adds. An empty one is not written. -/
def newDefault (e : ImportEntry) : Option String := e.addedDefault.filter (· ≠ "")

/-- The local names that an entry adds to the file. -/
def addedNames (e : ImportEntry) : List String :=
  e.newDefault.toList ++ e.added.map (·.localName)

/-- The additions of an entry. -/
def additions (e : ImportEntry) : List Addition :=
  e.newDefault.toList.map (⟨Patch.mergeKey e, true, ·⟩) ++
    e.added.map fun n => ⟨Patch.mergeKey e, false, n.localName⟩

/-- The names of all additions are the names that an entry adds. -/
private theorem map_name_additions (e : ImportEntry) : e.additions.map (·.name) = e.addedNames := by
  rw [additions, List.map_append, List.map_map, List.map_map, addedNames]
  exact congrArg (· ++ _) (List.map_id _)

/-- An addition is a new default or a new name in braces. -/
theorem mem_additions {e : ImportEntry} {a : Addition} :
    a ∈ e.additions ↔ Patch.mergeKey e = a.declaration ∧
      if a.isDefault then e.newDefault = some a.name
      else a.name ∈ e.added.map (·.localName) := by
  obtain ⟨declaration, isDefault, name⟩ := a
  rw [additions, List.mem_append, List.mem_map, List.mem_map]
  cases isDefault with
  | true => simp [and_comm]
  | false =>
    constructor
    · rintro (⟨d, -, heq⟩ | ⟨n, hn, heq⟩)
      · cases congrArg Addition.isDefault heq
      · obtain ⟨rfl, -, rfl⟩ := Addition.mk.inj heq
        exact ⟨rfl, List.mem_map.2 ⟨n, hn, rfl⟩⟩
    · rintro ⟨rfl, hname⟩
      obtain ⟨n, hn, rfl⟩ := List.mem_map.1 hname
      exact .inr ⟨n, hn, rfl⟩

/-- A clean entry adds nothing twice. -/
private theorem IsClean.nodup_additions {e : ImportEntry} (h : e.IsClean) : e.additions.Nodup := by
  rw [additions, List.nodup_append]
  refine ⟨?_, ?_, ?_⟩
  · cases e.newDefault <;> simp
  · have hnodup := h.nodup
    rw [List.Nodup, List.pairwise_map] at hnodup ⊢
    refine hnodup.imp fun hne heq => hne ?_
    exact congrArg Addition.name heq
  · rintro a ha b hb rfl
    obtain ⟨d, -, rfl⟩ := List.mem_map.1 ha
    obtain ⟨n, -, heq⟩ := List.mem_map.1 hb
    cases congrArg Addition.isDefault heq

/-- Of two defaults the first is kept. -/
theorem newDefault_merge (e f : ImportEntry) :
    (e.merge f).newDefault = (e.newDefault <|> f.newDefault) := by
  change (firstName e.addedDefault f.addedDefault).filter (· ≠ "") =
    (e.addedDefault.filter (· ≠ "") <|> f.addedDefault.filter (· ≠ ""))
  rw [firstName]
  cases h : e.addedDefault.filter (· ≠ "") with
  | none => rfl
  | some d =>
    have hd : d ≠ "" := by simpa using (Option.filter_eq_some_iff.1 h).2
    simp [Option.filter, hd]

/-- An entry adds what several entries for its declaration add, and the first of their defaults. -/
structure IsSum (g : List ImportEntry) (f : ImportEntry) : Prop where
  isClean : f.IsClean
  named : ∀ e ∈ g, e.named = f.named
  added : ∀ name, name ∈ f.added.map (·.localName) ↔ ∃ e ∈ g, name ∈ e.added.map (·.localName)
  newDefault : f.newDefault = g.findSome? newDefault

/-- A clean entry is its own sum. -/
private theorem isSum_singleton {e : ImportEntry} (h : e.IsClean) : IsSum [e] e where
  isClean := h
  named := by simp
  added := by simp
  newDefault := by
    rw [List.findSome?_singleton]

/-- A sum is merged with one more entry of the same declaration. -/
theorem IsSum.merge {g : List ImportEntry} {f e : ImportEntry} (h : IsSum g f) (he : e.IsClean)
    (hnamed : f.named = e.named) : IsSum (g ++ [e]) (f.merge e) where
  isClean := h.isClean.merge he hnamed
  named x hx := by
    change x.named = f.named
    rcases List.mem_append.1 hx with hx | hx
    · exact h.named x hx
    · rw [List.mem_singleton.1 hx, hnamed]
  added name := by
    rw [mem_added_merge he hnamed, h.added]
    simp only [List.mem_append, List.mem_singleton]
    constructor
    · rintro (⟨x, hx, hname⟩ | hname)
      · exact ⟨x, .inl hx, hname⟩
      · exact ⟨e, .inr rfl, hname⟩
    · rintro ⟨x, hx | rfl, hname⟩
      · exact .inl ⟨x, hx, hname⟩
      · exact .inr hname
  newDefault := by
    rw [newDefault_merge, h.newDefault, List.findSome?_append, List.findSome?_singleton]
    exact Option.orElse_eq_or

/-- A sum is merged with more entries of the same declaration. -/
theorem IsSum.foldl {rest : List ImportEntry} {g : List ImportEntry} {f : ImportEntry}
    (h : IsSum g f) (hrest : ∀ e ∈ rest, e.IsClean ∧ e.named = f.named) :
    IsSum (g ++ rest) (rest.foldl ImportEntry.merge f) := by
  induction rest generalizing g f with
  | nil =>
    rw [List.append_nil]
    exact h
  | cons e rest ih =>
    obtain ⟨he, hnamed⟩ := hrest e List.mem_cons_self
    have hstep := h.merge he hnamed.symm
    have hsum := ih hstep fun x hx => hrest x (List.mem_cons_of_mem _ hx)
    rwa [List.append_assoc, List.singleton_append] at hsum

end ImportEntry

namespace Patch

open ImportEntry

/-- Entries of which those for one declaration have its names, and add none of these. -/
structure Fits (es : List ImportEntry) : Prop where
  isClean : ∀ e ∈ es, e.IsClean
  named : ∀ e ∈ es, ∀ f ∈ es, mergeKey e = mergeKey f → e.named = f.named

variable {es : List ImportEntry}

theorem foldl_mergeInto (rest : List ImportEntry) (e : ImportEntry) :
    rest.foldl (fun o x => some (mergeInto x o)) (some e) =
      some (rest.foldl ImportEntry.merge e) := by
  induction rest generalizing e with
  | nil => rfl
  | cons x rest ih => exact ih (e.merge x)

/-- What is merged under a key is made of the entries with that key. -/
theorem find?_mergeFold (es : List ImportEntry) (k : String × Option (Nat × Nat)) :
    ((mergeFold es).find? (·.1 = k)).map (·.2) =
      (es.filter (mergeKey · = k)).foldl (fun o e => some (mergeInto e o)) none :=
  find?_foldl_upsert mergeKey mergeInto es [] k

/-- What is merged under a key is made of the entries with that key, one after the other. -/
theorem find?_mergeFold_eq_some_iff {k : String × Option (Nat × Nat)} {f : ImportEntry} :
    ((mergeFold es).find? (·.1 = k)).map (·.2) = some f ↔
      ∃ e rest, es.filter (mergeKey · = k) = e :: rest ∧ f = rest.foldl ImportEntry.merge e := by
  rw [find?_mergeFold]
  cases es.filter (mergeKey · = k) with
  | nil => simp
  | cons e rest =>
    rw [List.foldl_cons]
    change rest.foldl (fun o x => some (mergeInto x o)) (some e) = some f ↔ _
    rw [foldl_mergeInto, Option.some.injEq]
    constructor
    · rintro rfl
      exact ⟨e, rest, rfl, rfl⟩
    · rintro ⟨e', rest', heq, rfl⟩
      obtain ⟨rfl, rfl⟩ := List.cons.inj heq
      rfl

/-- A merged entry is the merge of all entries with its key. -/
private theorem mem_mergeEntries_iff {f : ImportEntry} : f ∈ mergeEntries es ↔
    ∃ e rest, es.filter (mergeKey · = mergeKey f) = e :: rest ∧
      f = rest.foldl ImportEntry.merge e := by
  rw [← find?_mergeFold_eq_some_iff]
  constructor
  · intro h
    obtain ⟨x, hx, rfl⟩ := List.mem_map.1 h
    rw [← (mem_mergeFold hx).1, find?_eq_some_of_mem (pairwise_mergeFold es) hx]
    rfl
  · intro h
    obtain ⟨x, hx, rfl⟩ := Option.map_eq_some_iff.1 h
    exact List.mem_map.2 ⟨x, List.mem_of_find?_eq_some hx, rfl⟩

/-- A merged entry is the sum of the entries with its key. -/
private theorem isSum_of_mem_mergeEntries (hes : Fits es) {f : ImportEntry}
    (h : f ∈ mergeEntries es) : IsSum (es.filter (mergeKey · = mergeKey f)) f := by
  obtain ⟨e, rest, hgroup, hf⟩ := mem_mergeEntries_iff.1 h
  have hmem : ∀ x ∈ e :: rest, x ∈ es ∧ mergeKey x = mergeKey f := by
    intro x hx
    rw [← hgroup, List.mem_filter, decide_eq_true_eq] at hx
    exact hx
  obtain ⟨he, hkey⟩ := hmem e List.mem_cons_self
  have hsum : IsSum ([e] ++ rest) (rest.foldl ImportEntry.merge e) := by
    refine (isSum_singleton (hes.isClean e he)).foldl fun x hx => ?_
    obtain ⟨hx, hkey'⟩ := hmem x (List.mem_cons_of_mem _ hx)
    exact ⟨hes.isClean x hx, hes.named x hx e he (hkey'.trans hkey.symm)⟩
  rw [hgroup]
  rw [← hf] at hsum
  exact hsum

/-- Each entry is part of a merged one. -/
theorem exists_mem_mergeEntries {e : ImportEntry} (h : e ∈ es) :
    ∃ f ∈ mergeEntries es, mergeKey f = mergeKey e := by
  have hgroup : e ∈ es.filter (mergeKey · = mergeKey e) :=
    List.mem_filter.2 ⟨h, decide_eq_true rfl⟩
  cases hfilter : es.filter (mergeKey · = mergeKey e) with
  | nil =>
    rw [hfilter] at hgroup
    cases hgroup
  | cons x rest =>
    have hfind := find?_mergeFold_eq_some_iff.2 ⟨x, rest, hfilter, rfl⟩
    obtain ⟨y, hy, -⟩ := Option.map_eq_some_iff.1 hfind
    have hmem := List.mem_of_find?_eq_some hy
    have hkey : y.1 = mergeKey e := by simpa using List.find?_some hy
    exact ⟨y.2, List.mem_map.2 ⟨y, hmem, rfl⟩, (mem_mergeFold hmem).1.symm.trans hkey⟩

/-- The additions of entries once those for one declaration are merged. -/
theorem mem_additions_mergeEntries (hes : Fits es) {a : Addition} :
    a ∈ (mergeEntries es).flatMap additions ↔
      if a.isDefault then
        (es.filter (mergeKey · = a.declaration)).findSome? newDefault = some a.name
      else ∃ e ∈ es, mergeKey e = a.declaration ∧ a.name ∈ e.added.map (·.localName) := by
  have hadds : a ∈ (mergeEntries es).flatMap additions ↔ ∃ f ∈ mergeEntries es,
      mergeKey f = a.declaration ∧ if a.isDefault then
        (es.filter (mergeKey · = a.declaration)).findSome? newDefault = some a.name
      else ∃ e ∈ es, mergeKey e = a.declaration ∧ a.name ∈ e.added.map (·.localName) := by
    rw [List.mem_flatMap]
    refine exists_congr fun f => and_congr_right fun hf => ?_
    rw [mem_additions]
    refine and_congr_right fun hkey => ?_
    have hsum := isSum_of_mem_mergeEntries hes hf
    rw [hkey] at hsum
    rw [hsum.newDefault, hsum.added]
    simp only [List.mem_filter, decide_eq_true_eq, and_assoc]
  rw [hadds]
  refine ⟨fun ⟨_, _, _, h⟩ => h, fun h => ?_⟩
  -- An addition comes from an entry, so there is a merged one for its declaration.
  have hentry : ∃ e ∈ es, mergeKey e = a.declaration := by
    split at h
    · obtain ⟨e, he, -⟩ := List.exists_of_findSome?_eq_some h
      rw [List.mem_filter, decide_eq_true_eq] at he
      exact ⟨e, he⟩
    · obtain ⟨e, he, hkey, -⟩ := h
      exact ⟨e, he, hkey⟩
  obtain ⟨e, he, hkey⟩ := hentry
  obtain ⟨f, hf, hfe⟩ := exists_mem_mergeEntries he
  exact ⟨f, hf, hfe.trans hkey, h⟩

/-- The first default that is added to a declaration. -/
theorem head?_filter_slot (es : List ImportEntry) (k : String × Option (Nat × Nat)) :
    ((es.flatMap additions).filter (Addition.slot · = (k, none))).head? =
      ((es.filter (mergeKey · = k)).findSome? newDefault).map (⟨k, true, ·⟩) := by
  induction es with
  | nil => rfl
  | cons e es ih =>
    have hbraces : (e.added.map fun n => (⟨mergeKey e, false, n.localName⟩ : Addition)).filter
        (Addition.slot · = (k, none)) = [] := by
      simp [Addition.slot]
    rw [List.flatMap_cons, List.filter_append, List.head?_append, ih, additions,
      List.filter_append, hbraces, List.append_nil]
    by_cases hkey : mergeKey e = k
    · cases hdefault : e.newDefault <;> simp [Addition.slot, hkey, hdefault]
    · cases hdefault : e.newDefault <;> simp [Addition.slot, hkey]

/-- The additions of entries of which the first for every place is kept. -/
theorem mem_distinctBy_slot {a : Addition} :
    a ∈ distinctBy Addition.slot (es.flatMap additions) ↔
      if a.isDefault then
        (es.filter (mergeKey · = a.declaration)).findSome? newDefault = some a.name
      else ∃ e ∈ es, mergeKey e = a.declaration ∧ a.name ∈ e.added.map (·.localName) := by
  obtain ⟨k, isDefault, name⟩ := a
  cases isDefault with
  | true =>
    rw [mem_distinctBy_iff, if_pos rfl]
    change ((es.flatMap additions).filter (Addition.slot · = (k, none))).head? = _ ↔ _
    rw [head?_filter_slot, Option.map_eq_some_iff]
    simp
  | false =>
    -- The place of a name in braces tells all of it.
    have hplace : ∀ b : Addition, b.slot = (k, some name) → b = ⟨k, false, name⟩ := by
      rintro ⟨k', isDefault', name'⟩ hslot
      cases isDefault' with
      | true => cases (Prod.mk.inj hslot).2
      | false =>
        obtain ⟨hk, hname⟩ := Prod.mk.inj hslot
        exact congrArg₂ (Addition.mk · false ·) hk (Option.some.inj hname)
    have hkept : (⟨k, false, name⟩ : Addition) ∈ distinctBy Addition.slot (es.flatMap additions) ↔
        (⟨k, false, name⟩ : Addition) ∈ es.flatMap additions := by
      refine ⟨mem_of_mem_distinctBy, fun h => ?_⟩
      obtain ⟨b, hb, hslot⟩ := exists_mem_distinctBy Addition.slot h
      rwa [← hplace b hslot]
    rw [hkept, List.mem_flatMap]
    simp only [mem_additions, Bool.false_eq_true, if_false]

/-- What is added in the end is what the first entry for every place adds. -/
theorem mem_mergeEntries_additions_iff (hes : Fits es) {a : Addition} :
    a ∈ (mergeEntries es).flatMap additions ↔ a ∈ distinctBy Addition.slot (es.flatMap additions) :=
  (mem_additions_mergeEntries hes).trans mem_distinctBy_slot.symm

/-- Merged entries add nothing twice. -/
private theorem nodup_additions_mergeEntries (hes : Fits es) :
    ((mergeEntries es).flatMap additions).Nodup := by
  rw [List.nodup_flatMap]
  constructor
  · intro f hf
    exact (isSum_of_mem_mergeEntries hes hf).isClean.nodup_additions
  · refine (pairwise_mergeEntries es).imp fun hne a ha hb => hne ?_
    exact (mem_additions.1 ha).1.trans (mem_additions.1 hb).1.symm

/-- The names that entries add to the file. -/
def newNames (es : List ImportEntry) : List String := (mergeEntries es).flatMap addedNames

/-- The new names are those of all additions. -/
private theorem newNames_eq (es : List ImportEntry) :
    newNames es = ((mergeEntries es).flatMap additions).map (·.name) := by
  rw [newNames, List.map_flatMap]
  simp only [map_name_additions]

/-- The names that are added differ exactly if no name is added at two places. -/
theorem nodup_newNames_iff (hes : Fits es) : (newNames es).Nodup ↔
    ∀ a ∈ distinctBy Addition.slot (es.flatMap additions),
      ∀ b ∈ distinctBy Addition.slot (es.flatMap additions), a.name = b.name → a = b := by
  rw [newNames_eq, List.nodup_map_iff_inj_on (nodup_additions_mergeEntries hes)]
  simp only [mem_mergeEntries_additions_iff hes]

/-- A name is new exactly if it is that of an addition. -/
theorem mem_newNames_iff (hes : Fits es) {name : String} : name ∈ newNames es ↔
    ∃ a ∈ distinctBy Addition.slot (es.flatMap additions), a.name = name := by
  rw [newNames_eq, List.mem_map]
  simp only [mem_mergeEntries_additions_iff hes]

end Patch

/-! ## Entries of plans -/

namespace ImportEntry

variable {existing : List ExistingImport} {host : Option ExistingImport}
variable {asked : List ImportRequest} {e : ImportEntry}

/-- Every name that an entry adds was asked for, as a default or in the braces. -/
theorem Derived.exists_request (h : Derived existing host asked e) :
    (∀ name, e.newDefault = some name → ∃ r ∈ asked, r.kind = .default ∧ r.localName = name) ∧
      ∀ name ∈ e.added.map (·.localName),
        ∃ r ∈ asked, r.kind ≠ .default ∧ r.localName = name := by
  induction h with
  | initial r =>
    obtain ⟨hadded, hdefault⟩ := added_initial existing host r
    rw [newDefault, hadded, hdefault]
    exact ⟨nofun, by simp⟩
  | @addRequest asked e _ r ih =>
    have hold : (∀ name, e.newDefault = some name →
        ∃ s ∈ asked ++ [r], s.kind = .default ∧ s.localName = name) ∧
        ∀ name ∈ e.added.map (·.localName),
          ∃ s ∈ asked ++ [r], s.kind ≠ .default ∧ s.localName = name := by
      refine ⟨fun name hname => ?_, fun name hname => ?_⟩
      · obtain ⟨s, hs, hkind⟩ := ih.1 name hname
        exact ⟨s, List.mem_append_left _ hs, hkind⟩
      · obtain ⟨s, hs, hkind⟩ := ih.2 name hname
        exact ⟨s, List.mem_append_left _ hs, hkind⟩
    have hmem : r ∈ asked ++ [r] := List.mem_append_right _ List.mem_cons_self
    rcases e.addRequest_cases r with ⟨hkind, heq | ⟨-, -, heq⟩⟩ | ⟨hkind, ⟨-, heq⟩ | ⟨-, heq⟩⟩ <;>
      rw [heq]
    · exact hold
    · refine ⟨fun name hname => ?_, hold.2⟩
      have hr := (Option.filter_eq_some_iff.1 hname).1
      exact ⟨r, hmem, hkind, Option.some.inj hr⟩
    · exact hold
    · refine ⟨hold.1, fun name hname => ?_⟩
      rw [List.map_append, List.mem_append] at hname
      rcases hname with hname | hname
      · exact hold.2 name hname
      · exact ⟨r, hmem, hkind, (List.mem_singleton.1 hname).symm⟩
  | @merge asked asked' e f h h' ih ih' =>
    have hleft : asked ⊆ asked ++ asked' := List.subset_append_left _ _
    have hright : asked' ⊆ asked ++ asked' := List.subset_append_right _ _
    refine ⟨fun name hname => ?_, fun name hname => ?_⟩
    · -- The first of two new defaults is kept.
      rw [newDefault_merge] at hname
      cases hdefault : e.newDefault with
      | some d =>
        rw [hdefault] at hname
        obtain ⟨r, hr, hkind⟩ := ih.1 name (hdefault.trans hname)
        exact ⟨r, hleft hr, hkind⟩
      | none =>
        rw [hdefault] at hname
        obtain ⟨r, hr, hkind⟩ := ih'.1 name hname
        exact ⟨r, hright hr, hkind⟩
    · rw [mem_added_merge h'.isClean (h.isFor.named.trans h'.isFor.named.symm)] at hname
      rcases hname with hname | hname
      · obtain ⟨r, hr, hkind⟩ := ih.2 name hname
        exact ⟨r, hleft hr, hkind⟩
      · obtain ⟨r, hr, hkind⟩ := ih'.2 name hname
        exact ⟨r, hright hr, hkind⟩

/-- Every entry for a plan belongs to a declaration, and was asked for names of the plan. -/
theorem derived_of_mem_ofPlan {plan : ImportPlan} (h : e ∈ ofPlan existing plan) :
    ∃ host asked, (∀ i, host = some i → i ∈ existing) ∧ asked ⊆ plan.requests ∧
      Derived existing host asked e := by
  obtain ⟨⟨k, f⟩, hf, rfl⟩ := List.mem_map.1 h
  refine List.foldlRecOn (motive := fun (entries : List ((String × Option Nat) × ImportEntry)) =>
    ∀ x ∈ entries, ∃ host asked, (∀ i, host = some i → i ∈ existing) ∧ asked ⊆ plan.requests ∧
      Derived existing host asked x.2) plan.requests _ ?_ ?_ _ hf
  · simp
  · intro entries ih r hr x hx
    rcases mem_upsert hx with hx | rfl | ⟨a, ha, rfl⟩
    · exact ih x hx
    · refine ⟨existing.find? (accepts · r), [r], fun i hi => List.mem_of_find?_eq_some hi,
        by simpa using hr, ?_⟩
      exact (Derived.initial r).addRequest r
    · obtain ⟨host, asked, hhost, hasked, hderived⟩ := ih _ ha
      refine ⟨host, asked ++ [r], hhost, ?_, hderived.addRequest r⟩
      exact List.append_subset.2 ⟨hasked, by simpa using hr⟩

/-- The range of a declaration tells which one it is. -/
theorem IsFor.host_eq {host' : Option ExistingImport} {f : ImportEntry}
    (hrange : ∀ x ∈ existing, ∀ y ∈ existing, x.start = y.start → x = y)
    (hhost : ∀ i, host = some i → i ∈ existing) (hhost' : ∀ i, host' = some i → i ∈ existing)
    (h : e.IsFor host) (h' : f.IsFor host') (hspan : e.span = f.span) : host = host' := by
  rw [h.span, h'.span] at hspan
  cases host with
  | none =>
    cases host' with
    | none => rfl
    | some j => cases hspan
  | some i =>
    cases host' with
    | none => cases hspan
    | some j =>
      have hstart := (Prod.mk.inj (Option.some.inj hspan)).1
      rw [hrange i (hhost i rfl) j (hhost' j rfl) hstart]

/-- Entries for declarations that their ranges tell apart fit together. -/
theorem fits_of_derived (hrange : ∀ x ∈ existing, ∀ y ∈ existing, x.start = y.start → x = y)
    {es : List ImportEntry} (h : ∀ e ∈ es, ∃ host asked, (∀ i, host = some i → i ∈ existing) ∧
      Derived existing host asked e) : Patch.Fits es where
  isClean e he := by
    obtain ⟨host, asked, -, hderived⟩ := h e he
    exact hderived.isClean
  named e he f hf hkey := by
    obtain ⟨host, asked, hhost, hderived⟩ := h e he
    obtain ⟨host', asked', hhost', hderived'⟩ := h f hf
    have hsame := hderived.isFor.host_eq hrange hhost hhost' hderived'.isFor (Prod.mk.inj hkey).2
    rw [hderived.isFor.named, hderived'.isFor.named, hsame]

end ImportEntry

end StableProps

import StableProps.Import.Planner
import StableProps.Patch.Assemble
import StableProps.Proofs.Outcome
import StableProps.Proofs.Syntax.Range

/-!
# Import declarations in a patch

An entry for a declaration of the file keeps the range of that declaration and stands for the
module it imports. Merging keeps ranges and modules, and leaves one entry for each pair of them; as
the range of a declaration determines its module, no declaration is rewritten twice.
-/

namespace StableProps

namespace ImportEntry

/-- A request does not change which module an entry is for. -/
@[simp] theorem key_addRequest (e : ImportEntry) (r : ImportRequest) :
    (e.addRequest r).key = e.key := by
  rw [addRequest]
  split <;> split <;> rfl

/-- A request does not change which statement an entry rewrites. -/
@[simp] theorem span_addRequest (e : ImportEntry) (r : ImportRequest) :
    (e.addRequest r).span = e.span := by
  rw [addRequest]
  split <;> split <;> rfl

/-- A merged entry is for the module of the first one. -/
@[simp] theorem key_merge (e f : ImportEntry) : (e.merge f).key = e.key := rfl

/-- A merged entry rewrites the statement of the first one. -/
@[simp] theorem span_merge (e f : ImportEntry) : (e.merge f).span = e.span := rfl

/-- An entry that has a range has that of a declaration in the file, and the key of its module. -/
def Belongs (existing : List ExistingImport) (e : ImportEntry) : Prop :=
  ∀ span, e.span = some span → ∃ i ∈ existing, span = (i.start, i.stop) ∧ e.key = i.moduleKey

/-- An entry that belongs to a statement still does after a request is added. -/
theorem Belongs.addRequest {existing : List ExistingImport} {e : ImportEntry}
    (h : e.Belongs existing) (r : ImportRequest) : (e.addRequest r).Belongs existing := by
  intro span hspan
  rw [span_addRequest] at hspan
  rw [key_addRequest]
  exact h span hspan

/-- The entry of a statement that takes a request belongs to it. -/
private theorem belongs_ofExisting {existing : List ExistingImport} {i : ExistingImport}
    {r : ImportRequest} (hi : i ∈ existing) (h : accepts i r = true) :
    (ofExisting i r).Belongs existing := by
  intro span hspan
  have hkey : i.moduleKey = r.moduleKey := by
    simp only [accepts, Bool.and_eq_true, beq_iff_eq] at h
    exact h.1.1
  exact ⟨i, hi, (Option.some.inj hspan).symm, hkey.symm⟩

/-- The entry for a request belongs to one of the statements, or is new. -/
private theorem belongs_ofRequest (existing : List ExistingImport) (r : ImportRequest) :
    (ofRequest existing r).Belongs existing := by
  intro span hspan
  rw [ofRequest] at hspan
  split at hspan <;> cases hspan

/-- The entry that a request starts from belongs to the file. -/
theorem belongs_start (existing : List ExistingImport) (r : ImportRequest) :
    (match existing.find? (accepts · r) with
      | some i => ofExisting i r
      | none => ofRequest existing r).Belongs existing := by
  split
  next i hi =>
    have haccepts : accepts i r = true := by simpa using List.find?_some hi
    exact belongs_ofExisting (List.mem_of_find?_eq_some hi) haccepts
  · exact belongs_ofRequest existing r

/-- All entries for a plan belong to the file. -/
theorem belongs_of_mem_ofPlan {existing : List ExistingImport} {plan : ImportPlan}
    {e : ImportEntry} (h : e ∈ ofPlan existing plan) : e.Belongs existing := by
  obtain ⟨⟨k, f⟩, hf, rfl⟩ := List.mem_map.1 h
  -- The fold keeps the invariant that all entries made so far belong to the file.
  refine List.foldlRecOn (motive := fun (entries : List ((String × Option Nat) × ImportEntry)) =>
    ∀ x ∈ entries, x.2.Belongs existing) plan.requests _ ?_ ?_ _ hf
  · simp
  · intro entries ih r _ x hx
    rcases mem_upsert hx with hx | rfl | ⟨a, ha, rfl⟩
    · exact ih x hx
    · exact (belongs_start existing r).addRequest r
    · exact (ih _ ha).addRequest r

end ImportEntry

namespace Patch

/-- The range of an entry with the key of its module, by which entries are merged. -/
def mergeKey (e : ImportEntry) : String × Option (Nat × Nat) := (e.key, e.span)

/-- An entry merged into the one that stands for its declaration, if there is one. -/
def mergeInto (e : ImportEntry) : Option ImportEntry → ImportEntry
  | some f => f.merge e
  | none => e

/-- Merged entries under their merge keys. -/
def mergeFold (entries : List ImportEntry) :
    List ((String × Option (Nat × Nat)) × ImportEntry) :=
  entries.foldl (fun merged e => upsert (mergeKey e) (mergeInto e) merged) []

/-- Entries are merged under their merge keys, each of which is that of an entry that was given. -/
theorem mem_mergeFold {entries : List ImportEntry} {x : (String × Option (Nat × Nat)) × ImportEntry}
    (h : x ∈ mergeFold entries) : x.1 = mergeKey x.2 ∧ ∃ e ∈ entries, mergeKey e = x.1 := by
  refine List.foldlRecOn (motive := fun (merged : List (_ × ImportEntry)) =>
    ∀ x ∈ merged, x.1 = mergeKey x.2 ∧ ∃ e ∈ entries, mergeKey e = x.1) entries _ ?_ ?_ x h
  · simp
  · intro merged ih e he x hx
    rcases mem_upsert hx with hx | rfl | ⟨f, hf, rfl⟩
    · exact ih x hx
    · exact ⟨rfl, e, he, rfl⟩
    · exact ⟨(ih _ hf).1, e, he, rfl⟩

/-- After merging, no two entries have the same key. -/
theorem pairwise_mergeFold (entries : List ImportEntry) :
    (mergeFold entries).Pairwise fun x y => x.1 ≠ y.1 :=
  List.foldlRecOn (motive := fun (merged : List (_ × ImportEntry)) =>
      merged.Pairwise fun x y => x.1 ≠ y.1) entries _ List.Pairwise.nil
    (fun _ ih _ _ => pairwise_upsert _ _ ih)

/-- Merged entries have the merge keys of the entries they were made of. -/
theorem exists_of_mem_mergeEntries {entries : List ImportEntry} {f : ImportEntry}
    (h : f ∈ mergeEntries entries) : ∃ e ∈ entries, mergeKey e = mergeKey f := by
  obtain ⟨x, hx, rfl⟩ := List.mem_map.1 h
  obtain ⟨hkey, e, he, heq⟩ := mem_mergeFold hx
  exact ⟨e, he, heq.trans hkey⟩

/-- No two merged entries have the same merge key. -/
theorem pairwise_mergeEntries (entries : List ImportEntry) :
    (mergeEntries entries).Pairwise fun e f => mergeKey e ≠ mergeKey f := by
  refine List.pairwise_map.2 ((pairwise_mergeFold entries).imp_of_mem ?_)
  intro x y hx hy hne
  rw [← (mem_mergeFold hx).1, ← (mem_mergeFold hy).1]
  exact hne

/-- Merged entries belong to statements if the single ones do. -/
theorem belongs_of_mem_mergeEntries {existing : List ExistingImport} {entries : List ImportEntry}
    (h : ∀ e ∈ entries, e.Belongs existing) {f : ImportEntry} (hf : f ∈ mergeEntries entries) :
    f.Belongs existing := by
  obtain ⟨e, he, hkey⟩ := exists_of_mem_mergeEntries hf
  obtain ⟨hk, hspan⟩ := Prod.mk.inj hkey
  intro span hs
  obtain ⟨i, hi, heq, hkey⟩ := h e he span (hspan.trans hs)
  exact ⟨i, hi, heq, hk ▸ hkey⟩

end Patch

/-! ## Declarations of a source -/

namespace ExistingImport

private theorem range_addPart (i : ExistingImport) (part : Node) :
    (i.addPart part).start = i.start ∧ (i.addPart part).stop = i.stop := by
  rw [addPart]
  split <;> exact ⟨rfl, rfl⟩

private theorem range_foldl_addPart (parts : List Node) (i : ExistingImport) :
    (parts.foldl addPart i).start = i.start ∧ (parts.foldl addPart i).stop = i.stop := by
  induction parts generalizing i with
  | nil => exact ⟨rfl, rfl⟩
  | cons part parts ih =>
    obtain ⟨hstart, hstop⟩ := ih (i.addPart part)
    obtain ⟨hstart', hstop'⟩ := range_addPart i part
    exact ⟨hstart.trans hstart', hstop.trans hstop'⟩

/-- An import has the range of the statement that declares it. -/
theorem range_ofStatement {resolve : String → Except Failure (Option Path)} {n : Node}
    {x : ExistingImport} (h : ofStatement resolve n = .ok (some x)) :
    x.start = n.start ∧ x.stop = n.stop := by
  rw [ofStatement] at h
  split at h
  · cases h
  · obtain ⟨resolved, -, h⟩ := bind_eq_ok.1 h
    obtain rfl := Option.some.inj (Except.ok.inj h)
    exact range_foldl_addPart _ _

end ExistingImport

namespace ModuleIndex

/-- What an index says of its source: the scopes are those of its tree, every import is declared by
a statement at the top, and the range of that statement tells imports apart. -/
structure IsOf (i : ModuleIndex) (s : Source) : Prop where
  source : i.source = s
  scopes : i.scopes = ScopeTree.ofModule s.root
  declared : ∀ x ∈ i.imports, ∃ n ∈ s.root.children, n.is .importStatement = true ∧
    x.start = n.start ∧ x.stop = n.stop
  range_injective : ∀ x ∈ i.imports, ∀ y ∈ i.imports, x.start = y.start → x = y

/-- Each import of an index is read from an import statement at the top of the file. -/
theorem statement_of_mem_imports {resolve : String → Path → Except Failure (Option Path)}
    {s : Source} {i : ModuleIndex} (h : ofSource resolve s = .ok i) :
    ∀ x ∈ i.imports, ∃ n ∈ s.root.children, n.is .importStatement = true ∧
      ExistingImport.ofStatement (resolve · s.path) n = .ok (some x) := by
  obtain ⟨imports, himports, h⟩ := bind_eq_ok.1 h
  obtain rfl := Except.ok.inj h
  intro x hx
  obtain ⟨y, hy, rfl⟩ := List.mem_filterMap.1 hx
  obtain ⟨n, hn, hstatement⟩ := exists_of_mem_mapM (m := Except Failure) himports hy
  obtain ⟨hchild, his⟩ := List.mem_filter.1 hn
  exact ⟨n, Node.mem_of_mem_namedChildren hchild, his, hstatement⟩

/-- The index that is read from a source is an index of that source. -/
theorem isOf_ofSource {resolve : String → Path → Except Failure (Option Path)} {s : Source}
    {i : ModuleIndex} (h : ofSource resolve s = .ok i) : i.IsOf s := by
  have himports := statement_of_mem_imports h
  obtain ⟨imports, -, hindex⟩ := bind_eq_ok.1 h
  obtain rfl := Except.ok.inj hindex
  refine ⟨rfl, rfl, ?_, ?_⟩
  · intro x hx
    obtain ⟨n, hn, his, hx⟩ := himports x hx
    exact ⟨n, hn, his, ExistingImport.range_ofStatement hx⟩
  · intro x hx y hy hstart
    obtain ⟨n, hn, -, hx⟩ := himports x hx
    obtain ⟨k, hk, -, hy⟩ := himports y hy
    -- Statements are not empty, so two that start together are the same one.
    have hfocus : s.focus.IsIn s.root := .root
    have hn' := hfocus.child_bounds s.wellFormed hn
    have hk' := hfocus.child_bounds s.wellFormed hk
    have hsame : n.start = k.start := by
      rw [← (ExistingImport.range_ofStatement hx).1, ← (ExistingImport.range_ofStatement hy).1]
      exact hstart
    rcases hfocus.children_apart s.wellFormed hn hk with rfl | hlt | hlt
    · exact Option.some.inj (Except.ok.inj (hx.symm.trans hy))
    · change n.stop ≤ k.start at hlt
      omega
    · change k.stop ≤ n.start at hlt
      omega

end ModuleIndex

end StableProps

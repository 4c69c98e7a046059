import StableProps.Proofs.Module.Chain
import StableProps.Proofs.Module.Known
import StableProps.Proofs.Syntax.Range

/-!
# Names that modules pass on

A module asks other modules for the name that it is asked for itself, for the default export, and
for the names that are listed between the braces of its imports and exports. These stand on two
levels of its tree. As nodes are not empty and neighbours share no byte, a level has no more nodes
than the text has bytes, and so there are no more than two listed names for each byte.
-/

namespace StableProps

namespace Node

/-- Nodes between two offsets are between wider ones. -/
private theorem nestsBetween_of_le {cs : List Node} {start start' stop : Nat} (hle : start' ≤ start)
    (h : nestsBetween start stop cs = true) : nestsBetween start' stop cs = true := by
  cases cs with
  | nil =>
    simp only [nestsBetween, decide_eq_true_eq] at h ⊢
    omega
  | cons c cs =>
    simp only [nestsBetween, Bool.and_eq_true, decide_eq_true_eq] at h ⊢
    obtain ⟨⟨⟨hstart, hsize⟩, hnests⟩, hrest⟩ := h
    exact ⟨⟨⟨Nat.le_trans hle hstart, hsize⟩, hnests⟩, hrest⟩

/-- Nodes in a row are between the outer offsets. -/
private theorem nestsBetween_append {cs ds : List Node} {start middle stop : Nat}
    (hcs : nestsBetween start middle cs = true) (hds : nestsBetween middle stop ds = true) :
    nestsBetween start stop (cs ++ ds) = true := by
  induction cs generalizing start with
  | nil =>
    simp only [nestsBetween, decide_eq_true_eq] at hcs
    exact nestsBetween_of_le hcs hds
  | cons c cs ih =>
    simp only [nestsBetween, Bool.and_eq_true] at hcs
    simp only [List.cons_append, nestsBetween, Bool.and_eq_true]
    exact ⟨hcs.1, ih hcs.2⟩

/-- Neighbours hold at least a byte each. -/
theorem length_le_of_nestsBetween {cs : List Node} {start stop : Nat}
    (h : nestsBetween start stop cs = true) : cs.length + start ≤ stop := by
  induction cs generalizing start with
  | nil => simpa [nestsBetween] using h
  | cons c cs ih =>
    simp only [nestsBetween, Bool.and_eq_true, decide_eq_true_eq] at h
    have hrest := ih h.2
    rw [List.length_cons]
    omega

/-- The children of neighbours are neighbours. -/
theorem nestsBetween_flatMap_children {cs : List Node} {start stop : Nat}
    (h : nestsBetween start stop cs = true) :
    nestsBetween start stop (cs.flatMap children) = true := by
  induction cs generalizing start with
  | nil => exact h
  | cons c cs ih =>
    simp only [nestsBetween, Bool.and_eq_true, decide_eq_true_eq] at h
    obtain ⟨⟨⟨hstart, -⟩, hnests⟩, hrest⟩ := h
    rw [nests_iff] at hnests
    exact nestsBetween_append (nestsBetween_of_le hstart hnests) (ih hrest)

/-- The nodes that stand so many levels below a node. -/
def level (n : Node) : Nat → List Node
  | 0 => [n]
  | k + 1 => (n.level k).flatMap children

private theorem mem_level_succ {n c d : Node} {k : Nat} (hd : d ∈ n.level k) (hc : c ∈ d.children) :
    c ∈ n.level (k + 1) :=
  List.mem_flatMap.2 ⟨d, hd, hc⟩

private theorem mem_level_one {n c : Node} (hc : c ∈ n.children) : c ∈ n.level 1 :=
  mem_level_succ (List.mem_singleton_self n) hc

/-- The nodes of a level are one behind the other. -/
private theorem nestsBetween_level {n : Node} (h : n.nests = true) (k : Nat) :
    nestsBetween n.start n.stop (n.level (k + 1)) = true := by
  induction k with
  | zero =>
    rw [nests_iff] at h
    simpa [level] using h
  | succ k ih => exact nestsBetween_flatMap_children ih

end Node

namespace Source

/-- The names that are listed between the braces of imports and exports. -/
def listedNames (s : Source) : List String :=
  (s.root.level 3 ++ s.root.level 4).filterMap fun n => (n.child? .name).map Node.text

/-- The name of a node on the third or fourth level is listed. -/
private theorem mem_listedNames {s : Source} {n name : Node} (hname : n.child? .name = some name)
    (hn : n ∈ s.root.level 3 ∨ n ∈ s.root.level 4) : name.text ∈ s.listedNames :=
  List.mem_filterMap.2 ⟨n, List.mem_append.2 hn, by rw [hname, Option.map_some]⟩

/-- A text has at least half as many bytes as listed names. -/
theorem length_listedNames_le (s : Source) : s.listedNames.length ≤ 2 * s.text.utf8ByteSize := by
  have hlevel (k : Nat) : (s.root.level (k + 1)).length ≤ s.text.utf8ByteSize := by
    have hlength :=
      Node.length_le_of_nestsBetween (Node.nestsBetween_level s.wellFormed.nested k)
    rw [s.stop_root] at hlength
    exact Nat.le_of_add_right_le hlength
  have hnames : s.listedNames.length ≤ (s.root.level 3 ++ s.root.level 4).length :=
    List.length_filterMap_le _ _
  rw [List.length_append] at hnames
  have hthree : (s.root.level 3).length ≤ _ := hlevel 2
  have hfour : (s.root.level 4).length ≤ _ := hlevel 3
  omega

end Source

namespace ExistingImport

/-- The names of an import are those in its parts. -/
private theorem mem_named_foldl_addPart {parts : List Node} {i : ExistingImport} {x : ImportedName}
    (h : x ∈ (parts.foldl addPart i).named) :
    x ∈ i.named ∨ ∃ part ∈ parts, ∃ n ∈ part.children, specifier? n = some x := by
  induction parts generalizing i with
  | nil => exact .inl h
  | cons part parts ih =>
    rcases ih h with hx | ⟨part', hpart, hx⟩
    · rw [addPart] at hx
      split at hx
      · exact .inl hx
      · exact .inl hx
      · rcases List.mem_append.1 hx with hx | hx
        · exact .inl hx
        · obtain ⟨n, hn, hspecifier⟩ := List.mem_filterMap.1 hx
          exact .inr ⟨part, List.mem_cons_self, n, Node.mem_of_mem_namedChildren hn, hspecifier⟩
      · exact .inl hx
    · exact .inr ⟨part', List.mem_cons_of_mem _ hpart, hx⟩

/-- A name that an import lists is that of a specifier three levels below the statement. -/
theorem exists_of_mem_named {resolve : String → Except Failure (Option Path)} {statement : Node}
    {i : ExistingImport} (h : ofStatement resolve statement = .ok (some i)) {x : ImportedName}
    (hx : x ∈ i.named) : ∃ clause ∈ statement.children, ∃ part ∈ clause.children,
      ∃ n ∈ part.children, ∃ name, n.child? .name = some name ∧ x.imported = name.text := by
  rw [ofStatement] at h
  split at h
  · cases h
  · obtain ⟨resolved, -, h⟩ := bind_eq_ok.1 h
    obtain rfl := Option.some.inj (Except.ok.inj h)
    rcases mem_named_foldl_addPart hx with hx | ⟨part, hpart, n, hn, hspecifier⟩
    · cases hx
    · cases hclause : statement.childOf? .importClause with
      | none =>
        rw [hclause] at hpart
        cases hpart
      | some clause =>
        rw [hclause] at hpart
        rw [specifier?] at hspecifier
        split at hspecifier
        · obtain ⟨name, hname, hspecifier⟩ := Option.bind_eq_some_iff.1 hspecifier
          obtain rfl := Option.some.inj hspecifier
          exact ⟨clause, Node.mem_of_childOf? hclause, part, Node.mem_of_mem_namedChildren hpart,
            n, hn, name, hname, rfl⟩
        · cases hspecifier

/-- What a name is imported as: the default export, or a name that the import lists. -/
theorem of_binding?_eq_some {i : ExistingImport} {localName exported : String} {typeOnly : Bool}
    (h : i.binding? localName = some ⟨.name exported, typeOnly⟩) :
    exported = "default" ∨ ∃ x ∈ i.named, x.imported = exported := by
  rw [binding?] at h
  split at h
  · cases h
    exact .inl rfl
  · split at h
    · cases h
    · obtain ⟨x, hx, heq⟩ := Option.map_eq_some_iff.1 h
      cases heq
      exact .inr ⟨x, List.mem_of_find?_eq_some hx, rfl⟩

end ExistingImport

namespace ModuleIndex

variable {resolve : String → Path → Except Failure (Option Path)} {i : ModuleIndex}

/-- The name that an export has in another module is listed. -/
theorem mem_listedNames_of_export? (h : ofSource resolve i.source = .ok i) {name imported : String}
    {entry : ExportEntry} (hentry : i.export? name = some entry)
    (himported : entry.imported = some imported) : imported ∈ i.source.listedNames := by
  obtain ⟨statement, hstatement, hstems⟩ :=
    stems_of_mem_exports h (List.mem_of_find?_eq_some hentry)
  cases hstems with
  | own _ hnone =>
    rw [himported] at hnone
    cases hnone
  | between hclause hn hread =>
    obtain ⟨e, n, ⟨⟩, hname, ⟨-, hnone⟩ | ⟨-, hsome⟩⟩ := ModuleItem.of_ofSpecifier? hread
    · rw [himported] at hnone
      cases hnone
    · obtain rfl := Option.some.inj (himported.symm.trans hsome)
      have hclause' := Node.mem_level_succ (Node.mem_level_one hstatement) hclause
      exact Source.mem_listedNames hname (.inl (Node.mem_level_succ hclause' hn))

/-- The name that an imported name has in its module is that of the default export, or listed. -/
theorem mem_listedNames_of_importOf? (h : ofSource resolve i.source = .ok i)
    {localName exported : String} {existing : ExistingImport} {typeOnly : Bool}
    (himport : i.importOf? localName = some (existing, ⟨.name exported, typeOnly⟩)) :
    exported = "default" ∨ exported ∈ i.source.listedNames := by
  obtain ⟨hmem, hbinding⟩ := mem_imports_of_importOf? himport
  rcases ExistingImport.of_binding?_eq_some hbinding with hdefault | ⟨x, hx, rfl⟩
  · exact .inl hdefault
  · obtain ⟨statement, hstatement, -, hread⟩ := statement_of_mem_imports h existing hmem
    obtain ⟨clause, hclause, part, hpart, n, hn, name, hname, heq⟩ :=
      ExistingImport.exists_of_mem_named hread hx
    rw [heq]
    refine .inr (Source.mem_listedNames hname (.inr ?_))
    exact Node.mem_level_succ
      (Node.mem_level_succ (Node.mem_level_succ (Node.mem_level_one hstatement) hclause) hpart) hn

end ModuleIndex

/-- The name that is asked for next: the same one, that of the default export, or a listed one. -/
theorem Project.Goes.name_eq_or {p : Project (Except Failure)} {x y : Demand}
    {resolve : String → Path → Except Failure (Option Path)}
    (h : ModuleIndex.ofSource resolve x.module.source = .ok x.module) (hgoes : p.Goes x y) :
    y.name = x.name ∨ y.name = "default" ∨ y.name ∈ x.module.source.listedNames := by
  cases hgoes with
  | step hstep =>
    cases hstep with
    | @renamed i j name source entry listed =>
      cases himported : entry.imported.filter (· ≠ "") with
      | none => exact .inl rfl
      | some imported =>
        have hsome := (Option.filter_eq_some_iff.1 himported).1
        exact .inr (.inr (ModuleIndex.mem_listedNames_of_export? h listed hsome))
    | star => exact .inl rfl
  | imported _ himports =>
    obtain ⟨existing, typeOnly, himport, -⟩ := himports
    exact .inr (ModuleIndex.mem_listedNames_of_importOf? h himport)

end StableProps

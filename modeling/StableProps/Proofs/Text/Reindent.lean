import StableProps.Proofs.Patch.Splice
import StableProps.Proofs.Syntax.Range
import StableProps.Proofs.Text.MovedLines
import StableProps.Source

/-!
# Moving expressions faithfully

An expression that is moved keeps its lines. The first line and those that start inside a template
text of the expression are left as they are; the others change their indentation only, all by the
same width, so that the least one becomes the indentation asked for. No template text is changed.
-/

namespace StableProps

private theorem Bytes.slice_append_slice (bs : Bytes) {start middle stop : Nat} (h : start ≤ middle)
    (h' : middle ≤ stop) : bs.slice start middle ++ bs.slice middle stop = bs.slice start stop := by
  have hfront : bs.slice start middle = Bytes.slice (bs.take stop) start middle := by
    rw [slice, slice, List.take_take, Nat.min_eq_left h']
  rw [hfront]
  exact slice_append_drop h

namespace Node

/-- The lines of a node. -/
def lines (n : Node) (bs : Bytes) : List Bytes := (bs.slice n.start n.stop).split

/-- The offset at which a line of a node starts. -/
def lineStart (n : Node) (bs : Bytes) (i : Nat) : Nat := Line.offset n.start (n.lines bs) i

/-- Whether a line is not the first one and starts inside no template text of the node. -/
def IsFree (n : Node) (bs : Bytes) (i : Nat) : Prop :=
  i ≠ 0 ∧ ∀ t ∈ n.walk, t.is .templateString = true →
    ¬(t.start < n.lineStart bs i ∧ n.lineStart bs i < t.stop)

/-- A line whose indentation changes: it is free and not blank. -/
structure Indents (n : Node) (bs : Bytes) (i : Nat) (line : Bytes) : Prop where
  line_eq : (n.lines bs)[i]? = some line
  isFree : n.IsFree bs i
  not_isBlank : line.all Bytes.isBlank = false

/-- A text is that of a node with its lines moved under an indentation. -/
structure IsMoved (n : Node) (bs indent moved : Bytes) : Prop where
  /-- There are as many lines. -/
  length : moved.split.length = (n.lines bs).length
  /-- Lines that are not free are the same. -/
  fixed : ∀ i, ¬n.IsFree bs i → moved.split[i]? = (n.lines bs)[i]?
  /-- Lines are the same behind their indentation, but blank ones may become empty. -/
  content : ∀ (i : Nat) (old new : Bytes), (n.lines bs)[i]? = some old →
    moved.split[i]? = some new →
      new.content = old.content ∨ old.all Bytes.isBlank = true ∧ new = []
  /-- Template texts are the same, and what stands around them is, white space apart. -/
  template : ∀ t ∈ n.walk, t.is .templateString = true → ∃ before after : Bytes,
    moved = before ++ bs.slice t.start t.stop ++ after ∧
      before.filter Line.isKept = (bs.slice n.start t.start).filter Line.isKept ∧
      after.filter Line.isKept = (bs.slice t.stop n.stop).filter Line.isKept
  /-- All indentations change alike. -/
  shift : ∃ common, ∀ (i : Nat) (old new : Bytes), n.Indents bs i old →
    moved.split[i]? = some new → common ≤ old.indentation.length ∧
      new.indentation = indent ++ old.indentation.drop common
  /-- The least indentation becomes the one asked for. -/
  least : ∀ (i : Nat) (old new : Bytes), n.Indents bs i old → moved.split[i]? = some new →
    (∀ j line, n.Indents bs j line → old.indentation.length ≤ line.indentation.length) →
      new.indentation = indent

/-! ## Lines and template texts -/

/-- The ranges of the template texts in a node. -/
def templates (n : Node) : List (Nat × Nat) :=
  (n.walk.filter (·.is .templateString)).map fun t => (t.start, t.stop)

/-- The lines of a node, with those marked that are free. -/
def marked (n : Node) (bs : Bytes) : List Line := Line.mark n.templates true n.start (n.lines bs)

variable {n : Node} {bs : Bytes}

/-- Each template below a node is one of its templates. -/
private theorem mem_templates {t : Node} (ht : t ∈ n.walk)
    (htemplate : t.is .templateString = true) : (t.start, t.stop) ∈ n.templates :=
  List.mem_map_of_mem (List.mem_filter.2 ⟨ht, htemplate⟩)

/-- Marking the lines of a node does not change them. -/
private theorem bytes_marked (n : Node) (bs : Bytes) : (n.marked bs).map Line.bytes = n.lines bs :=
  Line.map_bytes_mark _ _ _ _

private theorem bytes_mem_lines {l : Line} (hl : l ∈ n.marked bs) : l.bytes ∈ n.lines bs := by
  rw [← bytes_marked n bs]
  exact List.mem_map_of_mem hl

/-- A marked line is the line at its place, movable exactly if it is free. -/
private theorem of_getElem?_marked {i : Nat} {l : Line} (h : (n.marked bs)[i]? = some l) :
    (n.lines bs)[i]? = some l.bytes ∧ (l.movable = true ↔ n.IsFree bs i) := by
  rw [marked, Line.getElem?_mark, Option.map_eq_some_iff] at h
  obtain ⟨line, hline, rfl⟩ := h
  refine ⟨hline, ?_⟩
  simp [templates, IsFree, lineStart]

/-- Each line of a node is marked. -/
private theorem exists_marked {i : Nat} {line : Bytes} (h : (n.lines bs)[i]? = some line) :
    ∃ l, (n.marked bs)[i]? = some l ∧ l.bytes = line := by
  rwa [← bytes_marked, List.getElem?_map, Option.map_eq_some_iff] at h

/-- Lines whose indentation changes are those that are marked and not blank. -/
theorem indents_iff {i : Nat} {line : Bytes} : n.Indents bs i line ↔
    ∃ l, (n.marked bs)[i]? = some l ∧ l.bytes = line ∧ l.movable = true ∧ l.isBlank = false := by
  constructor
  · rintro ⟨hline, hfree, hblank⟩
    obtain ⟨l, hl, rfl⟩ := exists_marked hline
    exact ⟨l, hl, rfl, (of_getElem?_marked hl).2.2 hfree, hblank⟩
  · rintro ⟨l, hl, rfl, hmovable, hblank⟩
    obtain ⟨hline, hfree⟩ := of_getElem?_marked hl
    exact ⟨hline, hfree.1 hmovable, hblank⟩

/-- Template texts lie inside the node and start with their mark. -/
def TemplatesFit (n : Node) (bs : Bytes) : Prop :=
  ∀ t ∈ n.walk, t.is .templateString = true → n.start ≤ t.start ∧ t.start < t.stop ∧
    t.stop ≤ n.stop ∧ t.stop ≤ bs.length ∧ bs[t.start]? = some templateMark

/-- In a tree that cuts no character and has its marks template texts fit into their nodes. -/
theorem templatesFit_of_mem_walk {root : Node} (hroot : root.WellFormed)
    (hfits : ∀ m ∈ root.walk, m.fitsText bs = true) (hend : root.stop = bs.length)
    (hn : n ∈ root.walk) : n.TemplatesFit bs := by
  intro t ht htemplate
  rw [← Focus.map_node_walk] at hn
  obtain ⟨f, hf, rfl⟩ := List.mem_map.1 hn
  rw [← Focus.map_node_walkFrom f.above] at ht
  obtain ⟨g, hg, rfl⟩ := List.mem_map.1 ht
  have hin := Focus.isIn_of_mem_walk (Focus.mem_walk_iff.1 hf) hg
  have habove : g.above ≠ [] := by
    rcases hin.eq_root_or_down with rfl | ⟨p, c, -, -, rfl⟩
    · -- The whole tree is no template text.
      cases Node.eq_of_is hroot.program htemplate
    · exact List.cons_ne_nil _ _
  obtain ⟨hstart, hstop⟩ := hin.covers hroot (Focus.mem_outward_of_mem_walk hg)
  obtain ⟨-, hsize⟩ := hin.covers hroot hin.root_mem_outward
  have hmark := hfits g.node hin.mem_walk
  rw [fitsText, htemplate, Bool.and_eq_true, Bool.not_true, Bool.false_or, beq_iff_eq] at hmark
  exact ⟨hstart, hin.start_lt_stop hroot habove, hstop, hend ▸ hsize, hmark.2⟩

/-! ## No line changes its indentation -/

/-- If no line changes its indentation the bytes of the node are as asked for. -/
theorem isMoved_slice (hfit : n.TemplatesFit bs) (hnone : ∀ i line, ¬n.Indents bs i line)
    (indent : Bytes) : n.IsMoved bs indent (bs.slice n.start n.stop) where
  length := rfl
  fixed _ _ := rfl
  content _ _ _ hold hnew := .inl (congrArg _ (Option.some.inj (hnew.symm.trans hold)))
  template t ht htemplate := by
    obtain ⟨hstart, hsize, hstop, -⟩ := hfit t ht htemplate
    refine ⟨bs.slice n.start t.start, bs.slice t.stop n.stop, ?_, rfl, rfl⟩
    rw [Bytes.slice_append_slice bs hstart hsize.le,
      Bytes.slice_append_slice bs (hstart.trans hsize.le) hstop]
  shift := ⟨0, fun i old _ h => absurd h (hnone i old)⟩
  least i old _ h := absurd h (hnone i old)

/-! ## Lines share a part of their indentation -/

section

variable {common : Nat} {indent : Bytes}

/-- Moved lines are the lines of the moved text. -/
private theorem split_moved (hindent : ∀ b ∈ indent, Bytes.isIndent b = true) :
    (Bytes.joinLines ((n.marked bs).map (Line.moved common indent))).split =
      (n.marked bs).map (Line.moved common indent) := by
  refine Bytes.split_joinLines ?_ ?_
  · intro line hline
    obtain ⟨l, hl, rfl⟩ := List.mem_map.1 hline
    exact Line.newline_not_mem_moved hindent
      (Bytes.newline_not_mem_of_mem_split (bytes_mem_lines hl))
  · intro hnil
    have hlines := bytes_marked n bs
    rw [List.map_eq_nil_iff.1 hnil, List.map_nil] at hlines
    exact Bytes.split_ne_nil _ hlines.symm

/-- Around a template text white space changes at most. -/
theorem exists_moved_template (hindent : ∀ b ∈ indent, Bytes.isIndent b = true)
    (hfit : n.TemplatesFit bs)
    (hwidth : ∀ l ∈ n.marked bs, l.movable = true → l.isBlank = false → common ≤ l.width)
    {t : Node} (ht : t ∈ n.walk) (htemplate : t.is .templateString = true) :
    ∃ before after : Bytes, Bytes.joinLines ((n.marked bs).map (Line.moved common indent)) =
        before ++ bs.slice t.start t.stop ++ after ∧
      before.filter Line.isKept = (bs.slice n.start t.start).filter Line.isKept ∧
      after.filter Line.isKept = (bs.slice t.stop n.stop).filter Line.isKept := by
  obtain ⟨hstart, hsize, hstop, hlength, hmark⟩ := hfit t ht htemplate
  have hparts : bs.slice n.start n.stop = bs.slice n.start t.start ++
      (bs.slice t.start t.stop ++ bs.slice t.stop n.stop) := by
    rw [Bytes.slice_append_slice bs hsize.le hstop,
      Bytes.slice_append_slice bs hstart (hsize.le.trans hstop)]
  have hhead : ∀ b ∈ (bs.slice t.start t.stop ++ bs.slice t.stop n.stop).head?,
      Line.isKept b = true := by
    have hfirst : (bs.slice t.start t.stop).head? = some templateMark := by
      rw [Bytes.slice, List.head?_drop, List.getElem?_take_of_lt hsize, hmark]
    rw [List.head?_append, hfirst]
    rintro b ⟨⟩
    decide
  have hallows : Line.Allows n.templates common true n.start (bs.slice n.start t.start ++
      (bs.slice t.start t.stop ++ bs.slice t.stop n.stop)) := hparts ▸ hwidth
  have hbefore : n.start + (bs.slice n.start t.start).length = t.start := by
    rw [Bytes.length_slice (hsize.le.trans hlength), Nat.add_sub_cancel' hstart]
  have hinside : t.start + (bs.slice t.start t.stop).length = t.stop := by
    rw [Bytes.length_slice hlength, Nat.add_sub_cancel' hsize.le]
  obtain ⟨before, hkept, heq, hallows⟩ :=
    Line.exists_rendered_append hindent hhead _ (Nat.le_refl _) hallows
  rw [hbefore] at heq hallows
  obtain ⟨inLine, heq', hallows⟩ := Line.exists_rendered_range indent
    (mem_templates ht htemplate) (Nat.le_refl _) hinside hallows
  refine ⟨before, _, ?_, hkept, Line.filter_isKept_rendered hindent hallows⟩
  rw [List.append_assoc, ← heq', ← heq, ← hparts]
  rfl

/-- What lines share of their indentation makes room for the one asked for. -/
theorem indentation_moved (hindent : ∀ b ∈ indent, Bytes.isIndent b = true)
    (hwidth : ∀ l ∈ n.marked bs, l.movable = true → l.isBlank = false → common ≤ l.width)
    {i : Nat} {old new : Bytes} (hold : n.Indents bs i old)
    (hnew : ((n.marked bs).map (Line.moved common indent))[i]? = some new) :
    common ≤ old.indentation.length ∧
      new.indentation = indent ++ old.indentation.drop common := by
  obtain ⟨l, hl, rfl, hmovable, hblank⟩ := indents_iff.1 hold
  rw [List.getElem?_map, hl] at hnew
  obtain rfl := Option.some.inj hnew
  have hwidth := hwidth l (List.mem_of_getElem? hl) hmovable hblank
  exact ⟨hwidth, (Line.indentation_moved hindent hmovable hblank hwidth).1⟩

/-- If lines that are free and not blank lose all that they share of their indentation they are as
asked for. -/
theorem isMoved_moved (hindent : ∀ b ∈ indent, Bytes.isIndent b = true)
    (hfit : n.TemplatesFit bs)
    (hwidth : ∀ l ∈ n.marked bs, l.movable = true → l.isBlank = false → common ≤ l.width)
    (hleast : ∃ l ∈ n.marked bs, l.movable = true ∧ l.isBlank = false ∧ l.width = common) :
    n.IsMoved bs indent (Bytes.joinLines ((n.marked bs).map (Line.moved common indent))) where
  length := by
    rw [split_moved hindent, List.length_map, ← bytes_marked, List.length_map]
  fixed i hfixed := by
    rw [split_moved hindent, ← bytes_marked, List.getElem?_map, List.getElem?_map]
    refine Option.map_congr fun l hl => Line.moved_of_not_movable ?_
    exact Bool.eq_false_iff.2 fun hmovable => hfixed ((of_getElem?_marked hl).2.1 hmovable)
  content i old new hold hnew := by
    obtain ⟨l, hl, rfl⟩ := exists_marked hold
    rw [split_moved hindent, List.getElem?_map, hl] at hnew
    obtain rfl := Option.some.inj hnew
    exact Line.content_moved hindent (hwidth l (List.mem_of_getElem? hl))
  template t ht htemplate := exists_moved_template hindent hfit hwidth ht htemplate
  shift := by
    rw [split_moved hindent]
    exact ⟨common, fun i old new => indentation_moved hindent hwidth⟩
  least i old new hold hnew hmin := by
    rw [split_moved hindent] at hnew
    obtain ⟨hshared, hnew⟩ := indentation_moved hindent hwidth hold hnew
    obtain ⟨l, hl, hmovable, hblank, hcommon⟩ := hleast
    obtain ⟨j, hj⟩ := List.mem_iff_getElem?.1 hl
    have hle := hmin j l.bytes (indents_iff.2 ⟨l, hj, rfl, hmovable, hblank⟩)
    rw [← Line.width_eq, hcommon] at hle
    rw [hnew, List.drop_of_length_le hle, List.append_nil]

end

/-! ## Moved expressions -/

/-- Either no line changes its indentation or lines lose all that they share of it. -/
theorem reindentedBytes_cases (n : Node) (bs : Bytes) (indent : String) :
    (∀ l ∈ n.marked bs, l.movable = true → l.isBlank = true) ∧
        n.reindentedBytes bs indent = bs.slice n.start n.stop ∨
      ∃ common,
        (∀ l ∈ n.marked bs, l.movable = true → l.isBlank = false → common ≤ l.width) ∧
        (∃ l ∈ n.marked bs, l.movable = true ∧ l.isBlank = false ∧ l.width = common) ∧
        n.reindentedBytes bs indent =
          Bytes.joinLines ((n.marked bs).map (Line.moved common (Bytes.ofText indent))) := by
  have hmem {l : Line} : l ∈ (n.marked bs).filter (fun l => l.movable && !l.isBlank) ↔
      l ∈ n.marked bs ∧ l.movable = true ∧ l.isBlank = false := by
    rw [List.mem_filter, Bool.and_eq_true, Bool.not_eq_true']
  generalize hbytes : n.reindentedBytes bs indent = moved
  rw [reindentedBytes] at hbytes
  split at hbytes
  next hmin =>
    rw [List.min?_eq_none_iff, List.map_eq_nil_iff] at hmin
    refine .inl ⟨fun l hl hmovable => ?_, ?_⟩
    · by_contra hblank
      exact List.not_mem_nil (hmin ▸ hmem.2 ⟨hl, hmovable, Bool.eq_false_iff.2 hblank⟩)
    · rw [← hbytes]
      exact (congrArg Bytes.joinLines (bytes_marked n bs)).trans (Bytes.joinLines_split _)
  next common hmin =>
    obtain ⟨hcommon, hle⟩ := List.min?_eq_some_iff.1 hmin
    obtain ⟨l, hl, hwidth⟩ := List.mem_map.1 hcommon
    obtain ⟨hl, hmovable, hblank⟩ := hmem.1 hl
    exact .inr ⟨common, fun m hm hmovable hblank =>
      hle _ (List.mem_map_of_mem (hmem.2 ⟨hm, hmovable, hblank⟩)),
      ⟨l, hl, hmovable, hblank, hwidth⟩, hbytes.symm⟩

/-- A node is moved by its bytes if all its templates stand in them. -/
private theorem isMoved_reindentedBytes {indent : String}
    (hindent : ∀ b ∈ Bytes.ofText indent, Bytes.isIndent b = true) (hfit : n.TemplatesFit bs) :
    n.IsMoved bs (Bytes.ofText indent) (n.reindentedBytes bs indent) := by
  rcases reindentedBytes_cases n bs indent with ⟨hblank, heq⟩ | ⟨common, hwidth, hleast, heq⟩
  · rw [heq]
    refine isMoved_slice hfit (fun i line hline => ?_) _
    obtain ⟨l, hl, -, hmovable, hnot⟩ := indents_iff.1 hline
    exact Bool.false_ne_true (hnot.symm.trans (hblank l (List.mem_of_getElem? hl) hmovable))
  · rw [heq]
    exact isMoved_moved hindent hfit hwidth hleast

/-- No character is cut. -/
theorem isText_reindentedBytes (h : (bs.slice n.start n.stop).IsText) (indent : String) :
    (n.reindentedBytes bs indent).IsText := by
  rcases reindentedBytes_cases n bs indent with ⟨-, heq⟩ | ⟨common, hwidth, -, heq⟩
  · rwa [heq]
  · rw [heq, Bytes.isText_joinLines_iff]
    intro line hline
    obtain ⟨l, hl, rfl⟩ := List.mem_map.1 hline
    rw [← Bytes.joinLines_split (bs.slice n.start n.stop), Bytes.isText_joinLines_iff] at h
    exact Line.isText_moved (Bytes.isText_ofText indent) (h _ (bytes_mem_lines hl)) (hwidth l hl)

end Node

/-! ## Expressions of a source -/

namespace Bytes

private theorem isIndent_of_mem_ofText {indent : String}
    (h : ∀ c ∈ indent.toList, c = ' ' ∨ c = '\t') : ∀ b ∈ ofText indent, isIndent b = true := by
  intro b hb
  rw [ofText_eq_encode, encode] at hb
  obtain ⟨c, hc, hb⟩ := List.mem_flatMap.1 hb
  rcases h c hc with rfl | rfl
  all_goals
    obtain rfl := List.mem_singleton.1 hb
    decide

end Bytes

namespace Source

variable {path : Path} {language : Language} {text : String} {n : Node}

/-- In a source whose nodes have the texts of their ranges, an expression that is moved under spaces
and tabs keeps its lines, its first line, the lines that start inside its template texts, and these
texts. The other lines change their indentation alike. -/
theorem isMoved_reindented_of_fitsText {s : Source}
    (hfits : ∀ n ∈ s.root.walk, n.fitsText s.bytes = true) (hn : n ∈ s.root.walk)
    {indent : String} (hindent : ∀ c ∈ indent.toList, c = ' ' ∨ c = '\t') :
    n.IsMoved s.bytes (Bytes.ofText indent) (Bytes.ofText (n.reindented s.bytes indent)) := by
  have hslice : (s.bytes.slice n.start n.stop).IsText := by
    have hfit := hfits n hn
    rw [Node.fitsText, Bool.and_eq_true, Bool.and_eq_true] at hfit
    exact (Bytes.isText_ofText s.text).slice hfit.1.1 hfit.1.2
  rw [Node.reindented, (Node.isText_reindentedBytes hslice indent).ofText_text]
  exact Node.isMoved_reindentedBytes (Bytes.isIndent_of_mem_ofText hindent)
    (Node.templatesFit_of_mem_walk s.wellFormed hfits s.stop_root hn)

/-- An expression of a source that is moved under spaces and tabs keeps its lines, its first line,
the lines that start inside its template texts, and these texts. The other lines change their
indentation alike, so that the least indented of them get the one asked for. -/
theorem isMoved_reindented {indent : String} (hn : n ∈ (parsed path language text).root.walk)
    (hindent : ∀ c ∈ indent.toList, c = ' ' ∨ c = '\t') :
    n.IsMoved (parsed path language text).bytes (Bytes.ofText indent)
      (Bytes.ofText (n.reindented (parsed path language text).bytes indent)) :=
  isMoved_reindented_of_fitsText (fitsText_parse language text) hn hindent

/-- A list in which a line starts inside a template text. -/
def listOfTexts : Source :=
  .parsed (Language.snippetPath .tsx) .tsx
    "const C = () => <A b=\x7b[\n    1,\n    \x60a\n  b\x60,\n  ]\x7d />;\n"

set_option maxRecDepth 100000 in
/-- The list moves to a tab, and the line in the text stays. -/
theorem isMoved_reindented_listOfTexts :
    ∃ n ∈ listOfTexts.root.walk, n.is .arrayLiteral = true ∧
      n.reindented listOfTexts.bytes "\t" = "[\n\t  1,\n\t  \x60a\n  b\x60,\n\t]" ∧
      n.IsMoved listOfTexts.bytes (Bytes.ofText "\t")
        (Bytes.ofText (n.reindented listOfTexts.bytes "\t")) := by
  have hlist : ∃ n ∈ listOfTexts.root.walk, n.is .arrayLiteral = true ∧
      n.reindented listOfTexts.bytes "\t" = "[\n\t  1,\n\t  \x60a\n  b\x60,\n\t]" := by
    decide +kernel
  obtain ⟨n, hn, harray, htext⟩ := hlist
  exact ⟨n, hn, harray, htext, isMoved_reindented hn (by simp)⟩

/-- A list in a template text, between the braces of a value that is put in. -/
def listInText : Source :=
  .parsed (Language.snippetPath .tsx) .tsx
    "const C = () => \x60$\x7b<A b=\x7b[\n    1]\x7d />\x7d\x60;\n"

set_option maxRecDepth 100000 in
/-- Not every line that starts inside a template text stays: the text may lie around the
expression, which is then no part of its value. -/
theorem not_forall_line_inside_template_fixed :
    ¬∀ (path : Path) (language : Language) (text indent : String),
      (∀ c ∈ indent.toList, c = ' ' ∨ c = '\t') →
      ∀ n ∈ (parsed path language text).root.walk, ∀ t ∈ (parsed path language text).root.walk,
        t.is .templateString = true → ∀ i,
          t.start < n.lineStart (parsed path language text).bytes i ∧
            n.lineStart (parsed path language text).bytes i < t.stop →
          (Bytes.ofText (n.reindented (parsed path language text).bytes indent)).split[i]? =
            (n.lines (parsed path language text).bytes)[i]? := by
  intro hall
  have hmoved : ∃ n ∈ listInText.root.walk, n.is .arrayLiteral = true ∧
      ∃ t ∈ listInText.root.walk, t.is .templateString = true ∧
        (t.start < n.lineStart listInText.bytes 1 ∧ n.lineStart listInText.bytes 1 < t.stop) ∧
        (Bytes.ofText (n.reindented listInText.bytes "")).split[1]? ≠
          (n.lines listInText.bytes)[1]? := by
    decide +kernel
  obtain ⟨n, hn, -, t, ht, htemplate, hinside, hne⟩ := hmoved
  exact hne (hall _ _ _ "" (by simp) n hn t ht htemplate 1 hinside)

end Source

end StableProps

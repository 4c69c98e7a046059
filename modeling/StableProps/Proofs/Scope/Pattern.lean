import StableProps.Proofs.Syntax.Place
import StableProps.Scope.Binding

/-!
# What a pattern binds

A pattern binds a name by its parts: the entries of an object, the elements of an array, the target
before a default and what stands behind the dots of a rest. The names that are read off a pattern
are those that it binds, except behind dots that a comment follows: there the comment is taken for
the pattern. So all of them stand inside the pattern, with no functions in between.
-/

namespace StableProps

namespace Focus

/-- The parts of a pattern that are patterns in turn. -/
inductive HasPart (p : Focus) : Focus → Prop where
  /-- An entry of an object, other than a key with a value. -/
  | entry {c : Node} (object : p.node.is .objectPattern = true) (mem : c ∈ p.node.children)
      (kind : c.isOneOf [.shorthandPropertyIdentifierPattern, .objectAssignmentPattern,
        .restPattern] = true) : HasPart p (p.down c)
  /-- The value of an entry with a key. -/
  | value {c : Node} {q : Focus} (object : p.node.is .objectPattern = true)
      (mem : c ∈ p.node.children) (kind : c.is .pairPattern = true)
      (child : (p.down c).child? .value = some q) : HasPart p q
  /-- An element of an array. -/
  | element {c : Node} (array : p.node.is .arrayPattern = true) (mem : c ∈ p.node.children)
      (named : c.isNamed = true) : HasPart p (p.down c)
  /-- What a default stands for. -/
  | target {q : Focus}
      (default : p.node.isOneOf [.assignmentPattern, .objectAssignmentPattern] = true)
      (child : p.child? .left = some q) : HasPart p q
  /-- What stands behind dots. -/
  | rest {c : Node} (dots : p.node.is .restPattern = true)
      (first : p.node.namedChildren.find? (!·.is .comment) = some c) : HasPart p (p.down c)

/-- A pattern binds the name at a place. -/
inductive Binds : Focus → Focus → Prop where
  | name {p : Focus}
      (name : p.node.isOneOf [.identifier, .shorthandPropertyIdentifierPattern] = true) : Binds p p
  | part {p q n : Focus} (part : HasPart p q) (rest : Binds q n) : Binds p n

/-- The first thing behind the dots of a rest is a comment. -/
def StartsWithComment (r : Focus) : Prop :=
  r.node.is .restPattern = true ∧ r.node.firstNamed?.any (·.is .comment) = true

/-- Within a pattern a name stands behind dots that a comment follows. -/
def Hides (p n : Focus) : Prop := ∃ r ∈ n.outward, p ∈ r.outward ∧ r.StartsWithComment

end Focus

namespace Bound

variable {above : List Node} {path : List Step} {m : Focus}

/-- Some of the names is at the place. -/
def AnyAt (bs : List Bound) (m : Focus) : Prop := ∃ b ∈ bs, b.place = m

/-- What is bound by either of two patterns is bound by both together. -/
private theorem anyAt_append {bs bs' : List Bound} : AnyAt
    (bs ++ bs') m ↔ AnyAt bs m ∨ AnyAt bs' m := by
  simp only [AnyAt, List.mem_append, or_and_right, exists_or]

@[simp] theorem not_anyAt_nil : ¬AnyAt [] m := by simp [AnyAt]

/-- A single name is bound where it stands. -/
@[simp] theorem anyAt_singleton {f : Focus} : AnyAt [⟨f, path⟩] m ↔ m = f := by
  simp [AnyAt, eq_comm]

/-! ## Lists of parts -/

/-- The entries of an object bind what one of them binds. -/
private theorem anyAt_ofEntries {cs : List Node} :
    AnyAt (ofEntries above path cs) m ↔ ∃ c ∈ cs, AnyAt (ofEntry above path c) m := by
  induction cs with
  | nil => simp [ofEntries]
  | cons c cs ih => rw [ofEntries, anyAt_append, ih, List.exists_mem_cons_iff]

/-- The elements of an array bind what they bind on their own, whatever the position. -/
theorem anyAt_ofElements (binds : Node → Prop) {cs : List Node} {position : Nat}
    (h : ∀ c ∈ cs, ∀ path, AnyAt (ofPattern above path c) m ↔ binds c) :
    AnyAt (ofElements above path position cs) m ↔ ∃ c ∈ cs, c.isNamed = true ∧ binds c := by
  induction cs generalizing position with
  | nil => simp [ofElements]
  | cons c cs ih =>
    have htail (position : Nat) : AnyAt (ofElements above path position cs) m ↔
        ∃ d ∈ cs, d.isNamed = true ∧ binds d :=
      ih fun d hd => h d (List.mem_cons_of_mem _ hd)
    rw [ofElements, List.exists_mem_cons_iff]
    split
    next hcomma =>
      have hunnamed : ¬(c.isNamed = true ∧ binds c) := by
        simp [Node.isNamed, Node.kind?, eq_of_beq hcomma]
      rw [htail, or_iff_right hunnamed]
    next =>
      split
      next hnamed =>
        rw [anyAt_append, h c List.mem_cons_self, htail, and_iff_right hnamed]
      next hnamed => rw [htail, or_iff_right fun hc => hnamed hc.1]

/-- A field binds what its first child binds. -/
private theorem anyAt_ofField {part : Field} {cs : List Node} :
    AnyAt (ofField above path part cs) m ↔
      ∃ c, cs.find? (·.field == some part) = some c ∧ AnyAt (ofPattern above path c) m := by
  induction cs with
  | nil => simp [ofField]
  | cons c cs ih =>
    rw [ofField, List.find?_cons]
    cases hfield : c.field == some part with
    | true => simp
    | false => simpa using ih

/-- What the first named child binds. -/
private theorem anyAt_ofFirstNamed {cs : List Node} :
    AnyAt (ofFirstNamed above path cs) m ↔
      ∃ c, cs.find? Node.isNamed = some c ∧ AnyAt (ofPattern above path c) m := by
  induction cs with
  | nil => simp [ofFirstNamed]
  | cons c cs ih =>
    rw [ofFirstNamed, List.find?_cons]
    cases hnamed : c.isNamed with
    | true => simp
    | false => simpa using ih

end Bound

namespace Focus

variable {p q r n : Focus}

/-! ## Parts and what lies between -/

/-- A part of a pattern stands below it. -/
theorem HasPart.mem_walk (h : p.HasPart q) : q ∈ p.walk := by
  have hchild {f g : Focus} {part : Field} (hf : f ∈ p.walk) (hg : f.child? part = some g) :
      g ∈ p.walk := by
    obtain ⟨d, hd, rfl⟩ := Option.map_eq_some_iff.1 hg
    exact down_mem_walk hf (Node.mem_of_child? hd)
  have hself := mem_walk_self p
  cases h with
  | entry _ hmem _ | element _ hmem _ => exact down_mem_walk hself hmem
  | value _ hmem _ hvalue => exact hchild (down_mem_walk hself hmem) hvalue
  | target _ htarget => exact hchild hself htarget
  | rest _ hfirst =>
    exact down_mem_walk hself (Node.mem_of_mem_namedChildren (List.mem_of_find?_eq_some hfirst))

/-- A pattern stands around its parts. -/
theorem HasPart.mem_outward (h : p.HasPart q) : p ∈ q.outward := mem_outward_of_mem_walk h.mem_walk

/-- A name that a pattern binds stands below it. -/
theorem Binds.mem_walk (h : p.Binds n) : n ∈ p.walk := by
  induction h with
  | name => exact mem_walk_self _
  | part hpart _ ih => exact mem_walk_trans ih hpart.mem_walk

/-- A pattern stands around the names it binds. -/
theorem Binds.mem_outward (h : p.Binds n) : p ∈ n.outward := mem_outward_of_mem_walk h.mem_walk

/-- Between a pattern and a part of it there is at most the entry that holds the part. -/
theorem HasPart.eq_or_eq_or_is (h : p.HasPart q) (hr : r ∈ q.outward) (hp : p ∈ r.outward) :
    r = p ∨ r = q ∨ r.node.is .pairPattern = true := by
  have hchild {c : Node} (hr : r ∈ (p.down c).outward) : r = p ∨ r = p.down c := by
    rcases List.mem_cons.1 hr with rfl | hr
    · exact .inr rfl
    · exact .inl (mem_outward_antisymm hr hp)
  cases h with
  | entry | element | rest => exact (hchild hr).imp_right .inl
  | @value c _ _ _ hkind hvalue =>
    obtain ⟨d, -, rfl⟩ := Option.map_eq_some_iff.1 hvalue
    rcases List.mem_cons.1 hr with rfl | hr
    · exact .inr (.inl rfl)
    · refine (hchild hr).imp_right fun heq => .inr ?_
      rw [heq]
      exact hkind
  | target _ htarget =>
    obtain ⟨d, -, rfl⟩ := Option.map_eq_some_iff.1 htarget
    exact (hchild hr).imp_right .inl

/-- A name of a part is hidden in the pattern by the dots of the pattern itself or in the part. -/
theorem HasPart.hides_iff (h : p.HasPart q) (hn : q.Binds n) :
    p.Hides n ↔ p.StartsWithComment ∨ q.Hides n := by
  constructor
  · rintro ⟨r, hr, hp, hcomment⟩
    have hinside (hq : q ∈ r.outward) : q.Hides n := ⟨r, hr, hq, hcomment⟩
    rcases outward_linear hn.mem_outward hr with hrq | hq
    · rcases h.eq_or_eq_or_is hrq hp with rfl | rfl | hpair
      · exact .inl hcomment
      · exact .inr (hinside (mem_outward_self _))
      · cases Node.eq_of_is hpair hcomment.1
    · exact .inr (hinside hq)
  · have hp := mem_outward_trans hn.mem_outward h.mem_outward
    rintro (hcomment | ⟨r, hr, hq, hcomment⟩)
    · exact ⟨p, hp, mem_outward_self _, hcomment⟩
    · exact ⟨r, hr, mem_outward_trans hq h.mem_outward, hcomment⟩

/-- A pattern binds a name openly that it is, or that a part of it binds openly. -/
theorem binds_and_not_hides_iff :
    p.Binds n ∧ ¬p.Hides n ↔
      p.node.isOneOf [.identifier, .shorthandPropertyIdentifierPattern] = true ∧ n = p ∨
        ∃ q, p.HasPart q ∧ ¬p.StartsWithComment ∧ q.Binds n ∧ ¬q.Hides n := by
  constructor
  · rintro ⟨hbinds, hhides⟩
    cases hbinds with
    | name hname => exact .inl ⟨hname, rfl⟩
    | part hpart hrest =>
      rw [hpart.hides_iff hrest, not_or] at hhides
      exact .inr ⟨_, hpart, hhides.1, hrest, hhides.2⟩
  · rintro (⟨hname, rfl⟩ | ⟨q, hpart, hcomment, hrest, hhides⟩)
    · refine ⟨.name hname, ?_⟩
      rintro ⟨r, hr, hp, hdots, -⟩
      obtain rfl := mem_outward_antisymm hr hp
      rw [Node.isOneOf, eq_of_beq hdots] at hname
      cases hname
    · exact ⟨.part hpart hrest, by rw [hpart.hides_iff hrest]; exact not_or.2 ⟨hcomment, hhides⟩⟩

/-- Only five sorts of patterns have parts. -/
theorem HasPart.isOneOf (h : p.HasPart q) :
    p.node.isOneOf [.objectPattern, .arrayPattern, .assignmentPattern, .objectAssignmentPattern,
      .restPattern] = true := by
  have hrule {k : Kind} (hk : p.node.is k = true) : p.node.label = .rule k := eq_of_beq hk
  cases h with
  | entry hobject | value hobject => rw [Node.isOneOf, hrule hobject]; rfl
  | element harray => rw [Node.isOneOf, hrule harray]; rfl
  | rest hdots => rw [Node.isOneOf, hrule hdots]; rfl
  | target hdefault _ =>
    rw [Node.isOneOf] at hdefault ⊢
    split at hdefault
    next k _ => cases k <;> first | rfl | cases hdefault
    · cases hdefault

/-- Only patterns bind names. -/
theorem Binds.isOneOf (h : p.Binds n) :
    p.node.isOneOf [.identifier, .shorthandPropertyIdentifierPattern, .objectPattern,
      .arrayPattern, .assignmentPattern, .objectAssignmentPattern, .restPattern] = true := by
  have hmono {ks : List Kind} (hkind : p.node.isOneOf ks = true)
      (hks : ∀ k ∈ ks, k ∈ [Kind.identifier, .shorthandPropertyIdentifierPattern, .objectPattern,
        .arrayPattern, .assignmentPattern, .objectAssignmentPattern, .restPattern]) :
      p.node.isOneOf [.identifier, .shorthandPropertyIdentifierPattern, .objectPattern,
        .arrayPattern, .assignmentPattern, .objectAssignmentPattern, .restPattern] = true := by
    rw [Node.isOneOf] at hkind ⊢
    cases hlabel : p.node.label with
    | token t => simp [hlabel] at hkind
    | rule k =>
      rw [hlabel] at hkind
      exact List.contains_iff_mem.2 (hks k (List.contains_iff_mem.1 hkind))
  cases h with
  | name hname => exact hmono hname (by decide)
  | part hpart _ => exact hmono hpart.isOneOf (by decide)

/-- A pattern is no function. -/
private theorem Binds.isFunction_eq_false (h : p.Binds n) : p.node.isFunction = false :=
  Node.isFunction_eq_false_of_isOneOf h.isOneOf (by decide)

/-- From a name up to the pattern that binds it there are no functions. -/
theorem Binds.mem_ofAbove_or (h : p.Binds n) (hr : r ∈ n.outward) :
    r ∈ ofAbove p.above ∨ r.node.isFunction = false := by
  induction h with
  | name hname =>
    rcases mem_outward_iff.1 hr with rfl | habove
    · exact .inr (Binds.name hname).isFunction_eq_false
    · exact .inl habove
  | @part p q n hpart hrest ih =>
    have hp := (Binds.part hpart hrest).isFunction_eq_false
    rcases ih hr with habove | hfree
    · have hq : r ∈ q.outward := mem_outward_iff.2 (.inr habove)
      rcases outward_linear hpart.mem_outward hq with hr | hinside
      · rcases mem_outward_iff.1 hr with rfl | habove
        · exact .inr hp
        · exact .inl habove
      · rcases hpart.eq_or_eq_or_is hq hinside with rfl | rfl | hpair
        · exact .inr hp
        · exact .inr hrest.isFunction_eq_false
        · exact .inr (Node.isFunction_eq_false_of_is hpair rfl)
    · exact .inr hfree

/-- A name binds itself and nothing else. -/
theorem binds_and_not_hides_iff_of_name
    (h : p.node.isOneOf [.identifier, .shorthandPropertyIdentifierPattern] = true) :
    p.Binds n ∧ ¬p.Hides n ↔ n = p := by
  rw [binds_and_not_hides_iff, or_iff_left, and_iff_right h]
  rintro ⟨q, hpart, -⟩
  have hkind := hpart.isOneOf
  rw [Node.isOneOf] at h hkind
  cases hlabel : p.node.label with
  | token t => simp [hlabel] at h
  | rule k =>
    rw [hlabel] at h hkind
    simp only [List.contains_cons, List.contains_nil, Bool.or_false, Bool.or_eq_true,
      beq_iff_eq] at h
    rcases h with rfl | rfl <;> cases hkind

/-- A pattern other than a name and the dots of a rest binds what its parts bind. -/
theorem binds_and_not_hides_iff_of_parts {k : Kind} (h : p.node.label = .rule k)
    (hkind : [Kind.identifier, .shorthandPropertyIdentifierPattern, .restPattern].contains k =
      false) :
    p.Binds n ∧ ¬p.Hides n ↔ ∃ q, p.HasPart q ∧ q.Binds n ∧ ¬q.Hides n := by
  have hname : ¬(p.node.isOneOf [.identifier, .shorthandPropertyIdentifierPattern] = true ∧
      n = p) := by
    rintro ⟨hname, -⟩
    simp_all [Node.isOneOf]
  have hcomment : ¬p.StartsWithComment := by
    rintro ⟨hdots, -⟩
    simp_all [Node.is]
  rw [binds_and_not_hides_iff, or_iff_right hname]
  exact exists_congr fun q => and_congr_right fun _ => and_iff_right hcomment

/-! ## Parts of each sort of pattern -/

section

variable {binds : Focus → Prop}

/-- The parts of an object pattern are its entries, and the values of its pairs. -/
private theorem exists_part_object (h : p.node.label = .rule .objectPattern) :
    (∃ q, p.HasPart q ∧ binds q) ↔ ∃ c ∈ p.node.children,
      c.isOneOf [.shorthandPropertyIdentifierPattern, .objectAssignmentPattern,
          .restPattern] = true ∧ binds (p.down c) ∨
        c.is .pairPattern = true ∧ ∃ q, (p.down c).child? .value = some q ∧ binds q := by
  constructor
  · rintro ⟨q, hpart, hq⟩
    cases hpart with
    | entry _ hmem hkind => exact ⟨_, hmem, .inl ⟨hkind, hq⟩⟩
    | value _ hmem hkind hvalue => exact ⟨_, hmem, .inr ⟨hkind, q, hvalue, hq⟩⟩
    | element hkind | rest hkind | target hkind => simp [Node.is, Node.isOneOf, h] at hkind
  · have hobject : p.node.is .objectPattern = true := by simp [Node.is, h]
    rintro ⟨c, hc, ⟨hkind, hq⟩ | ⟨hkind, q, hvalue, hq⟩⟩
    · exact ⟨_, .entry hobject hc hkind, hq⟩
    · exact ⟨q, .value hobject hc hkind hvalue, hq⟩

/-- The parts of an array pattern are its named children. -/
private theorem exists_part_array (h : p.node.label = .rule .arrayPattern) :
    (∃ q, p.HasPart q ∧ binds q) ↔ ∃ c ∈ p.node.children, c.isNamed = true ∧ binds (p.down c) := by
  constructor
  · rintro ⟨q, hpart, hq⟩
    cases hpart with
    | element _ hmem hnamed => exact ⟨_, hmem, hnamed, hq⟩
    | entry hkind | value hkind | rest hkind | target hkind =>
      simp [Node.is, Node.isOneOf, h] at hkind
  · rintro ⟨c, hc, hnamed, hq⟩
    exact ⟨_, .element (by simp [Node.is, h]) hc hnamed, hq⟩

/-- The part of a pattern with a default is what stands in front of it. -/
private theorem exists_part_default
    (h : p.node.isOneOf [.assignmentPattern, .objectAssignmentPattern] = true) :
    (∃ q, p.HasPart q ∧ binds q) ↔ ∃ q, p.child? .left = some q ∧ binds q := by
  constructor
  · rintro ⟨q, hpart, hq⟩
    cases hpart with
    | target _ htarget => exact ⟨q, htarget, hq⟩
    | entry hkind | value hkind | element hkind | rest hkind =>
      rw [Node.isOneOf, eq_of_beq hkind] at h
      cases h
  · rintro ⟨q, htarget, hq⟩
    exact ⟨q, .target h htarget, hq⟩

/-- The part of a rest is its first named child, unless this is a comment. -/
private theorem exists_part_rest (h : p.node.label = .rule .restPattern) :
    (∃ q, p.HasPart q ∧ ¬p.StartsWithComment ∧ binds q) ↔
      ∃ c, p.node.firstNamed? = some c ∧ c.is .comment = false ∧ binds (p.down c) := by
  have hdots : p.node.is .restPattern = true := by simp [Node.is, h]
  have hfirst : p.node.firstNamed? = p.node.namedChildren.head? := List.head?_filter.symm
  constructor
  · rintro ⟨q, hpart, hstarts, hq⟩
    cases hpart with
    | @rest c _ hfound =>
      cases hnamed : p.node.namedChildren with
      | nil => simp [hnamed] at hfound
      | cons d ds =>
        rw [hnamed] at hfirst hfound
        have hd : d.is .comment = false := by
          simpa [StartsWithComment, hdots, hfirst] using hstarts
        rw [List.find?_cons_of_pos (by simp [hd])] at hfound
        obtain rfl := Option.some.inj hfound
        exact ⟨d, hfirst, hd, hq⟩
    | entry hkind | value hkind | element hkind | target hkind =>
      simp [Node.is, Node.isOneOf, h] at hkind
  · rintro ⟨c, hc, hcomment, hq⟩
    have hstarts : ¬p.StartsWithComment := by simp [StartsWithComment, hc, hcomment]
    obtain ⟨ds, hds⟩ := List.head?_eq_some_iff.1 (hfirst.symm.trans hc)
    refine ⟨_, .rest hdots ?_, hstarts, hq⟩
    rw [hds, List.find?_cons_of_pos (by simp [hcomment])]

end

end Focus

/-! ## The names that are read off -/

namespace Bound

open Focus

variable {m : Focus}

private theorem ofPattern_eq (above : List Node) (path : List Step) (n : Node) :
    ofPattern above path n = match n.label with
      | .rule .identifier => [⟨⟨n, above⟩, path⟩]
      | .rule .shorthandPropertyIdentifierPattern => [⟨⟨n, above⟩, path⟩]
      | .rule .objectPattern => ofEntries (n :: above) path n.children
      | .rule .arrayPattern => ofElements (n :: above) path 0 n.children
      | .rule .assignmentPattern => ofField (n :: above) path .left n.children
      | .rule .objectAssignmentPattern => ofField (n :: above) path .left n.children
      | .rule .restPattern => ofFirstNamed (n :: above) (path ++ [restStep]) n.children
      | _ => [] := by
  cases n
  unfold ofPattern
  rfl

/-- An entry of an object without a key is read like a pattern of its own. -/
theorem exists_ofEntry_eq {above : List Node} {path : List Step} {c : Node}
    (h : c.isOneOf [.shorthandPropertyIdentifierPattern, .objectAssignmentPattern,
      .restPattern] = true) : ∃ path', ofEntry above path c = ofPattern above path' c := by
  obtain ⟨id, label, field, start, stop, text, children⟩ := c
  unfold ofEntry
  split
  · exact ⟨_, by rw [ofPattern]⟩
  · simp [Node.isOneOf] at h
  · exact ⟨_, by rw [ofPattern]⟩
  · exact ⟨_, by rw [ofPattern]⟩
  next hshorthand _ hdefault hrest =>
    cases label with
    | token t => cases h
    | rule k => simp_all [Node.isOneOf]

/-- What an entry of an object binds is what the entry or its value binds. -/
theorem anyAt_ofEntry (binds : Focus → Prop) {p : Focus} {c : Node} {path : List Step}
    (hentry : ∀ path, AnyAt (ofPattern (p.node :: p.above) path c) m ↔ binds (p.down c))
    (hvalue : ∀ d ∈ c.children, ∀ path,
      AnyAt (ofPattern (c :: p.node :: p.above) path d) m ↔ binds ((p.down c).down d)) :
    AnyAt (ofEntry (p.node :: p.above) path c) m ↔
      c.isOneOf [.shorthandPropertyIdentifierPattern, .objectAssignmentPattern,
          .restPattern] = true ∧ binds (p.down c) ∨
        c.is .pairPattern = true ∧ ∃ q, (p.down c).child? .value = some q ∧ binds q := by
  by_cases hkind : c.isOneOf [.shorthandPropertyIdentifierPattern, .objectAssignmentPattern,
    .restPattern] = true
  · obtain ⟨path', heq⟩ : ∃ path', ofEntry (p.node :: p.above) path c =
        ofPattern (p.node :: p.above) path' c := exists_ofEntry_eq hkind
    have hpair : c.is .pairPattern = false := by
      by_contra hpair
      rw [Bool.not_eq_false] at hpair
      rw [Node.isOneOf, eq_of_beq hpair] at hkind
      cases hkind
    simp [heq, hentry, hkind, hpair]
  · rw [or_iff_right fun h => hkind h.1]
    obtain ⟨id, label, field, start, stop, text, children⟩ := c
    unfold ofEntry
    split
    · exact absurd rfl hkind
    · rw [anyAt_ofField]
      constructor
      · rintro ⟨d, hd, hbinds⟩
        exact ⟨rfl, _, congrArg (Option.map _) hd,
          (hvalue d (List.mem_of_find?_eq_some hd) _).1 hbinds⟩
      · rintro ⟨-, q, hq, hbinds⟩
        obtain ⟨d, hd, rfl⟩ := Option.map_eq_some_iff.1 hq
        exact ⟨d, hd, (hvalue d (Node.mem_of_child? hd) _).2 hbinds⟩
    · exact absurd rfl hkind
    · exact absurd rfl hkind
    next _ hpair _ _ =>
      have hno : Node.is ⟨id, label, field, start, stop, text, children⟩ .pairPattern = false := by
        simpa [Node.is] using hpair
      simp [hno]

/-- What a default stands for binds what it binds on its own. -/
theorem anyAt_ofTarget (binds : Focus → Prop) {p : Focus} {path : List Step} {part : Field}
    (h : ∀ c ∈ p.node.children, ∀ path,
      AnyAt (ofPattern (p.node :: p.above) path c) m ↔ binds (p.down c)) :
    AnyAt (ofField (p.node :: p.above) path part p.node.children) m ↔
      ∃ q, p.child? part = some q ∧ binds q := by
  rw [anyAt_ofField]
  constructor
  · rintro ⟨c, hc, hbinds⟩
    exact ⟨p.down c, congrArg (Option.map _) hc,
      (h c (List.mem_of_find?_eq_some hc) _).1 hbinds⟩
  · rintro ⟨q, hq, hbinds⟩
    obtain ⟨c, hc, rfl⟩ := Option.map_eq_some_iff.1 hq
    exact ⟨c, hc, (h c (Node.mem_of_child? hc) _).2 hbinds⟩

/-- The names that are read off a pattern are those it binds openly. -/
theorem anyAt_ofPattern (p : Focus) (path : List Step) :
    AnyAt (ofPattern p.above path p.node) m ↔ p.Binds m ∧ ¬p.Hides m := by
  have ih : ∀ c ∈ p.node.children, ∀ path, AnyAt (ofPattern (p.node :: p.above) path c) m ↔
      (p.down c).Binds m ∧ ¬(p.down c).Hides m :=
    fun c hc path => anyAt_ofPattern (p.down c) path
  -- The values of an object pattern are no children of it, but of its entries.
  have ihEntry : ∀ c ∈ p.node.children, ∀ d ∈ c.children, ∀ path,
      AnyAt (ofPattern (c :: p.node :: p.above) path d) m ↔
        ((p.down c).down d).Binds m ∧ ¬((p.down c).down d).Hides m :=
    fun c hc d hd path => anyAt_ofPattern ((p.down c).down d) path
  have hname {k : Kind} (hlabel : p.node.label = .rule k)
      (hk : [Kind.identifier, .shorthandPropertyIdentifierPattern].contains k = true) :
      AnyAt [⟨p, path⟩] m ↔ p.Binds m ∧ ¬p.Hides m :=
    anyAt_singleton.trans
      (binds_and_not_hides_iff_of_name (by rw [Node.isOneOf, hlabel]; exact hk)).symm
  have htarget {k : Kind} (hlabel : p.node.label = .rule k)
      (hk : [Kind.assignmentPattern, .objectAssignmentPattern].contains k = true)
      (hparts : [Kind.identifier, .shorthandPropertyIdentifierPattern, .restPattern].contains k =
        false) :
      AnyAt (ofField (p.node :: p.above) path .left p.node.children) m ↔
        p.Binds m ∧ ¬p.Hides m := by
    rw [binds_and_not_hides_iff_of_parts hlabel hparts,
      exists_part_default (by rw [Node.isOneOf, hlabel]; exact hk)]
    exact anyAt_ofTarget (fun q => q.Binds m ∧ ¬q.Hides m) ih
  rw [ofPattern_eq]
  split
  next hlabel => exact hname hlabel rfl
  next hlabel => exact hname hlabel rfl
  next hlabel =>
    rw [binds_and_not_hides_iff_of_parts hlabel rfl, exists_part_object hlabel, anyAt_ofEntries]
    exact exists_congr fun c => and_congr_right fun hc =>
      anyAt_ofEntry (fun q => q.Binds m ∧ ¬q.Hides m) (ih c hc) (ihEntry c hc)
  next hlabel =>
    rw [binds_and_not_hides_iff_of_parts hlabel rfl, exists_part_array hlabel]
    exact anyAt_ofElements (fun c => (p.down c).Binds m ∧ ¬(p.down c).Hides m) ih
  next hlabel => exact htarget hlabel rfl rfl
  next hlabel => exact htarget hlabel rfl rfl
  next hlabel =>
    have hnot : ¬(p.node.isOneOf [.identifier, .shorthandPropertyIdentifierPattern] = true ∧
        m = p) := by simp [Node.isOneOf, hlabel]
    rw [binds_and_not_hides_iff, or_iff_right hnot, exists_part_rest hlabel, anyAt_ofFirstNamed]
    refine exists_congr fun c => and_congr_right fun hc => ?_
    rw [ih c (Node.mem_of_firstNamed? hc)]
    refine (and_iff_right_of_imp fun h => ?_).symm
    by_contra hcomment
    rw [Bool.not_eq_false] at hcomment
    have hkind : c.isOneOf _ = true := h.1.isOneOf
    rw [Node.isOneOf, eq_of_beq hcomment] at hkind
    cases hkind
  next h₁ h₂ h₃ h₄ h₅ h₆ h₇ =>
    refine iff_of_false not_anyAt_nil fun h => ?_
    have hkind := h.1.isOneOf
    cases hlabel : p.node.label with
    | token t => simp [Node.isOneOf, hlabel] at hkind
    | rule k => simp_all [Node.isOneOf]
termination_by sizeOf p.node
decreasing_by
  · exact Node.sizeOf_lt_of_mem hc
  · exact Nat.lt_trans (Node.sizeOf_lt_of_mem hd) (Node.sizeOf_lt_of_mem hc)

end Bound

/-- The names that are read off a pattern are those that it binds, unless they stand behind dots
that a comment follows. -/
theorem Focus.mem_places_iff {p n : Focus} :
    (∃ b ∈ p.bindings, b.place = n) ↔ p.Binds n ∧ ¬p.Hides n :=
  Bound.anyAt_ofPattern p []

/-- Each binding of a pattern is a name that the pattern binds. -/
theorem Focus.binds_of_mem_bindings {p : Focus} {b : Bound} (h : b ∈ p.bindings) :
    p.Binds b.place :=
  (mem_places_iff.1 ⟨b, h, rfl⟩).1

end StableProps

import StableProps.Proofs.Types.Flat
import StableProps.Proofs.Types.Literals
import StableProps.Proofs.Types.Rendered

/-!
# Types that are read back as they are printed

A type is printed from its parts where it is a reference, a union, an intersection or an array.
Parentheses that were dropped when it was built are put back by the form of each part. If it is
printed from names, words of types and plain strings, then the grammar reads it for itself wherever
it can stand: as a whole, as a member of a union, or as an operand. It is shown beside that no part
of it turns the parentheses around it into those of parameters.
-/

namespace StableProps

open Reader

/-- The levels of the grammar that are used to read some characters. -/
def levelsFor (cs : List Char) : Nat := 8 * String.utf8Len cs + 64

namespace TypeExpr

mutual

/-- Whether a type is printed from names, words of types and plain strings, by unions and
intersections that have members to be told by. -/
def IsPlainlyPrinted : TypeExpr → Prop
  | .reference text name arguments d =>
    IsTypeName (referenceName (if name = "" then text else name) d).toList ∧
      ArePlainlyPrinted arguments
  | .keyword name => name ∈ predefinedTypes ∨ name ∈ ["null", "undefined"]
  | .literal text => IsPlainString text.toList
  | .union _ members => 2 ≤ members.length ∧ ArePlainlyPrinted members
  | .intersection _ members => 2 ≤ members.length ∧ ArePlainlyPrinted members
  | .array _ element => IsPlainlyPrinted element
  | _ => False

/-- Whether several types are printed from names, words and plain strings. -/
def ArePlainlyPrinted : List TypeExpr → Prop
  | [] => True
  | t :: ts => IsPlainlyPrinted t ∧ ArePlainlyPrinted ts

end

/-! ## What is read of printed types -/

/-- The marks that can stand behind an operand without arguments. -/
def operandMarks : List Char := [',', ')', '>', '|', '&', '[']

/-- What a printed type is read for where it can stand: as a whole, as a member of a union if it is
none itself, and as an operand. Behind a parenthesis it does not turn the type into parameters. -/
structure Printed (t : TypeExpr) : Prop where
  starts : Reader.starts t.render.toList = true
  whole : ∀ ⦃m⦄, levelsFor t.render.toList ≤ m + 1 → ∀ ⦃k⦄, Closes [',', ')', '>'] k →
    Reads (type (Grammar.level m)) t.render.toList k t.outline
  inUnion : t.isGroupedIn true = false → t.isUnion = false →
    ∀ ⦃m⦄, levelsFor t.render.toList ≤ m + 1 → ∀ ⦃k⦄, Closes [',', ')', '>', '|'] k →
      Reads (intersectionType (Grammar.level m)) t.render.toList k t.outline
  operand : t.isGrouped = false →
    ∀ ⦃m⦄, levelsFor t.render.toList ≤ m + 1 → ∀ ⦃k⦄, Closes operandMarks k →
      ReadsOperand (Grammar.level m) t.render.toList k t.outline
  stuck : ∀ ⦃m k⦄, Closes operandMarks k →
    (t.isGrouped = false → Stuck (Grammar.level (m + 1)) (skipSpace k)) →
      Stuck (Grammar.level (m + 1)) (t.render.toList ++ k)

variable {isUnion : Bool} {t : TypeExpr} {m : Nat} {k : List Char}

private theorem operandMarks_subset_closers : operandMarks ⊆ closers := by decide

/-- A type that is an operand wherever it stands. -/
theorem Printed.of_operand (starts : Reader.starts t.render.toList = true)
    (operand : ∀ ⦃m⦄, levelsFor t.render.toList ≤ m + 1 → ∀ ⦃k⦄, Closes operandMarks k →
      ReadsOperand (Grammar.level m) t.render.toList k t.outline)
    (stuck : ∀ ⦃m k⦄, Closes closers k → Stuck (Grammar.level (m + 1)) (skipSpace k) →
      Stuck (Grammar.level (m + 1)) (t.render.toList ++ k))
    (hgrouped : t.isGrouped = false) : Printed t where
  starts := starts
  whole _ hm _ hk := (operand hm (hk.mono (by decide))).type starts hk
  inUnion _ _ _ hm _ hk := (operand hm (hk.mono (by decide))).intersectionType starts hk
  operand _ _ hm _ hk := operand hm hk
  stuck _ _ hk h := stuck (hk.mono operandMarks_subset_closers) (h hgrouped)

/-- What starts with a visible character does so whatever follows. -/
private theorem starts_append {cs : List Char} (h : starts cs = true) (k : List Char) :
    starts (cs ++ k) = true := by
  cases cs with
  | nil => cases h
  | cons c cs => exact h

/-- Parentheses are put around a text if they are needed. -/
private theorem toList_parenthesized (needed : Bool) (s : String) :
    (parenthesized needed s).toList =
      if needed then '(' :: (s.toList ++ [')']) else s.toList := by
  cases needed with
  | false => rfl
  | true =>
    rw [parenthesized, if_pos rfl, if_pos rfl, String.toList_append, String.toList_append]
    rfl

/-- A type that binds weaker than its place is read as an operand in its parentheses. -/
theorem Printed.group (h : Printed t) (hgrouped : t.isGrouped = true)
    (hm : levelsFor ('(' :: (t.render.toList ++ [')'])) ≤ m + 1)
    (hk : Reader.opens (skipSpace k) = true) :
    ReadsOperand (Grammar.level m) ('(' :: (t.render.toList ++ [')'])) k t.outline := by
  have hlevels : levelsFor ('(' :: (t.render.toList ++ [')'])) =
      levelsFor t.render.toList + 16 := by
    have hopening : '('.utf8Size = 1 := by decide
    have hclosing : ')'.utf8Size = 1 := by decide
    simp only [levelsFor, String.utf8Len_cons, String.utf8Len_append, String.utf8Len_nil, hopening,
      hclosing]
    omega
  obtain ⟨m, rfl⟩ : ∃ l, m = l + 1 := ⟨m - 1, by rw [hlevels] at hm; omega⟩
  have hcloses : Closes [')'] (')' :: k) := by
    rintro c ⟨⟩
    exact List.mem_singleton_self _
  have hinside : Reads (Grammar.level (m + 1)).type t.render.toList (')' :: k) t.outline :=
    h.whole (by omega) (hcloses.mono (by decide))
  refine hinside.parenthesized h.starts hk fun size i hi => ?_
  have hstuck : Stuck (Grammar.level (m + 1)) (t.render.toList ++ ')' :: k) :=
    h.stuck (hcloses.mono (by decide)) (by simp [hgrouped])
  exact hstuck.formalParameters_eq_none (starts_append h.starts _) hi

/-! ## Members of unions and intersections -/

/-- What a member is read by. -/
def memberReader (isUnion : Bool) (g : Grammar) : Reader Node :=
  if isUnion then intersectionType g else arrayType g

/-- The marks that stand behind members. -/
def memberMarks (isUnion : Bool) : List Char :=
  if isUnion then [',', ')', '>', '|'] else [',', ')', '>', '|', '&']

/-- A member that needs parentheses needs them as an element as well. -/
private theorem isGrouped_of_isGroupedIn (h : t.isGroupedIn isUnion = true) :
    t.isGrouped = true := by
  rw [isGroupedIn, Bool.or_eq_true, Bool.and_eq_true] at h
  rw [isGrouped, Bool.or_eq_true, Bool.or_eq_true]
  exact .inl (h.imp_right (·.2))

/-- A member is printed with a visible character in front. -/
private theorem Printed.starts_memberText (h : Printed t) (isUnion : Bool) :
    Reader.starts (memberText isUnion t).toList = true := by
  rw [memberText, toList_parenthesized]
  split
  · rfl
  · exact h.starts

/-- A member is read for its own type. -/
theorem Printed.reads_memberText (h : Printed t)
    (hform : (if isUnion then t.isUnion else t.isIntersection) = false)
    (hm : levelsFor (memberText isUnion t).toList ≤ m + 1)
    (hk : Closes (memberMarks isUnion) k) :
    Reads (memberReader isUnion (Grammar.level m)) (memberText isUnion t).toList k t.outline := by
  have hstarts := h.starts_memberText isUnion
  rw [memberText, toList_parenthesized] at hm hstarts ⊢
  cases hgrouped : t.isGroupedIn isUnion with
  | true =>
    rw [hgrouped, if_pos rfl] at hm hstarts
    have hclosers : Closes closers k := hk.mono (by cases isUnion <;> decide)
    have hgroup := h.group (isGrouped_of_isGroupedIn hgrouped) hm hclosers.opens
    rw [if_pos rfl]
    cases isUnion with
    | true => exact hgroup.intersectionType hstarts hk
    | false => exact hgroup.arrayType (hk.head?_ne (by decide))
  | false =>
    rw [hgrouped, if_neg Bool.false_ne_true] at hm
    rw [if_neg Bool.false_ne_true]
    cases isUnion with
    | true => exact h.inUnion hgrouped hform hm hk
    | false =>
      have hnot : t.isGrouped = false := by
        simp only [isGroupedIn, Bool.not_false, Bool.true_and, Bool.or_eq_false_iff] at hgrouped
        simp only [isGrouped, hgrouped.1, hgrouped.2, Bool.or_false, Bool.false_or]
        exact hform
      exact (h.operand hnot hm (hk.mono (by decide))).arrayType (hk.head?_ne (by decide))

/-- Before another member, reading parameters gets stuck behind a first member or in it. -/
theorem Printed.stuck_memberText (h : Printed t) (hk : Closes ['|', '&'] k)
    (hstuck : Stuck (Grammar.level (m + 1)) (skipSpace k)) :
    Stuck (Grammar.level (m + 1)) ((memberText isUnion t).toList ++ k) := by
  rw [memberText, toList_parenthesized]
  split
  · exact stuck_of_mem_stuckMarks (by decide) _
  · exact h.stuck (hk.mono (by decide)) fun _ => hstuck

/-- The texts of members with what they are read for. -/
def pieces (isUnion : Bool) (ts : List TypeExpr) : List (List Char × TypeExpr) :=
  ts.map fun t => ((memberText isUnion t).toList, t.outline)

private theorem toList_intercalate_cons (sep s : String) (ss : List String) :
    (String.intercalate sep (s :: ss)).toList =
      s.toList ++ ss.flatMap fun s => sep.toList ++ s.toList := by
  rw [String.toList_intercalate, List.map_cons]
  induction ss generalizing s with
  | nil => simp
  | cons u ss ih =>
    rw [List.map_cons, List.intercalate_cons_cons, ih, List.flatMap_cons, List.append_assoc,
      List.append_assoc]

private theorem closes_separated (hk : Closes (memberMarks isUnion) k) (ts : List TypeExpr) :
    Closes (memberMarks isUnion) (separated (jointSeparator isUnion) (pieces isUnion ts) ++ k) := by
  cases ts with
  | nil => exact hk
  | cons t ts =>
    rintro c ⟨⟩
    cases isUnion <;> decide

/-- Each member is read before those behind it. -/
theorem readsEach_members {ts : List TypeExpr} (h : ∀ t ∈ ts, Printed t)
    (hforms : ∀ t ∈ ts, (if isUnion then t.isUnion else t.isIntersection) = false)
    (hm : ∀ t ∈ ts, levelsFor (memberText isUnion t).toList ≤ m + 1)
    (hk : Closes (memberMarks isUnion) k) :
    ReadsEach (memberReader isUnion (Grammar.level m)) (jointSeparator isUnion) k
      (pieces isUnion ts) := by
  induction ts with
  | nil => trivial
  | cons t ts ih =>
    obtain ⟨ht, h⟩ := List.forall_mem_cons.1 h
    obtain ⟨hform, hforms⟩ := List.forall_mem_cons.1 hforms
    obtain ⟨hmt, hm⟩ := List.forall_mem_cons.1 hm
    exact ⟨ht.starts_memberText _, ht.reads_memberText hform hmt (closes_separated hk ts),
      ih h hforms hm⟩

private theorem utf8Len_le_separated {sep : List Char} {ps : List (List Char × TypeExpr)}
    {q : List Char × TypeExpr} (hq : q ∈ ps) :
    String.utf8Len q.1 ≤ String.utf8Len (separated sep ps) := by
  obtain ⟨before, behind, rfl⟩ := List.append_of_mem hq
  simp only [separated, List.flatMap_append, List.flatMap_cons, String.utf8Len_append]
  omega

/-! ## All types -/

/-- The text of a union or intersection, taken apart at its marks. -/
theorem toList_intercalate_members (isUnion : Bool) (t : TypeExpr) (ts : List TypeExpr) :
    (String.intercalate (String.ofList (jointSeparator isUnion))
      ((t :: ts).map (memberText isUnion))).toList =
        (memberText isUnion t).toList ++
          separated (jointSeparator isUnion) (pieces isUnion ts) := by
  rw [List.map_cons, toList_intercalate_cons, String.toList_ofList, separated, pieces,
    List.flatMap_map, List.flatMap_map]

/-- Printed members are read as one union or intersection of them. -/
theorem reads_joint_members (isUnion : Bool) {t u : TypeExpr} {ts : List TypeExpr}
    (h : ∀ v ∈ t :: u :: ts, Printed v)
    (hforms : ∀ v ∈ t :: u :: ts, (if isUnion then v.isUnion else v.isIntersection) = false)
    (hm : levelsFor ((memberText isUnion t).toList ++
      separated (jointSeparator isUnion) (pieces isUnion (u :: ts))) ≤ m + 1)
    (hk : Closes (memberMarks isUnion) k) (hmark : (skipSpace k).head? ≠ some (jointMark isUnion)) :
    Reads (jointType isUnion (memberReader isUnion (Grammar.level m)))
      ((memberText isUnion t).toList ++
        separated (jointSeparator isUnion) (pieces isUnion (u :: ts))) k
      (joint isUnion (outlineAll (t :: u :: ts))) := by
  obtain ⟨ht, hts⟩ := List.forall_mem_cons.1 h
  have hstarts := ht.starts_memberText isUnion
  have hlevels : ∀ v ∈ t :: u :: ts, levelsFor (memberText isUnion v).toList ≤ m + 1 := by
    intro v hv
    simp only [levelsFor, String.utf8Len_append] at hm ⊢
    rcases List.mem_cons.1 hv with rfl | hv
    · omega
    · have hpiece : ((memberText isUnion v).toList, v.outline) ∈ pieces isUnion (u :: ts) :=
        List.mem_map_of_mem hv
      have hle : String.utf8Len (memberText isUnion v).toList ≤
        String.utf8Len (separated (jointSeparator isUnion) (pieces isUnion (u :: ts))) :=
          utf8Len_le_separated hpiece
      omega
  have houtlines : joint isUnion (outlineAll (t :: u :: ts)) =
      joint isUnion (t.outline :: (pieces isUnion (u :: ts)).map (·.2)) := by
    rw [outlineAll, outlineAll_eq_map, pieces, List.map_map]
    rfl
  obtain ⟨hform, hrest⟩ := List.forall_mem_cons.1 hforms
  obtain ⟨hlevel, hlevels⟩ := List.forall_mem_cons.1 hlevels
  have hread := ht.reads_memberText hform hlevel (closes_separated hk (u :: ts))
  rw [houtlines]
  refine hread.joint isUnion hstarts (hread.head?_ne hstarts ?_)
    (readsEach_members hts hrest hlevels hk) (List.cons_ne_nil _ _) ?_ hmark
  · intro size i cs hi
    cases isUnion with
    | true => exact intersectionType_eq_none hi
    | false => exact arrayType_eq_none hi (opensType_jointMark false)
  · rw [List.forall_mem_cons]
    refine ⟨sameForm_outline hform, ?_⟩
    rw [pieces, List.map_map, List.forall_mem_map]
    exact fun v hv => sameForm_outline (hrest v hv)

/-- Reading parameters gets stuck at the first mark between members, if not before it. -/
theorem stuck_members {t u : TypeExpr} {ts : List TypeExpr} (ht : Printed t) (k : List Char) :
    Stuck (Grammar.level (m + 1)) ((memberText isUnion t).toList ++
      separated (jointSeparator isUnion) (pieces isUnion (u :: ts)) ++ k) := by
  rw [List.append_assoc]
  refine ht.stuck_memberText ?_ ?_
  · rintro c ⟨⟩
    cases isUnion <;> decide
  · exact stuck_of_mem_stuckMarks (by cases isUnion <;> decide) _

/-- A flat union is read for itself. -/
theorem printed_union {text : String} {ts : List TypeExpr} (hlength : 2 ≤ ts.length)
    (h : ∀ t ∈ ts, Printed t) (hforms : ∀ t ∈ ts, t.isUnion = false) :
    Printed (.union text ts) := by
  obtain ⟨t, u, ts, rfl⟩ : ∃ t u us, ts = t :: u :: us := by
    match ts with
    | t :: u :: ts => exact ⟨t, u, ts, rfl⟩
  have hchars : (TypeExpr.union text (t :: u :: ts)).render.toList = _ :=
    (congrArg String.toList (by rw [render, renderUnion_eq_map]; rfl)).trans
      (toList_intercalate_members true t (u :: ts))
  have ht := h t List.mem_cons_self
  refine ⟨?_, fun m hm k hk => ?_, fun _ hunion => Bool.noConfusion hunion,
    fun hgrouped => Bool.noConfusion hgrouped, fun m k _ _ => ?_⟩
  · rw [hchars]
    exact starts_append (ht.starts_memberText _) _
  · rw [hchars] at hm ⊢
    have hread := reads_joint_members true h hforms hm (hk.mono (by decide))
      (hk.head?_ne (by decide))
    exact hread.type (hk.mono (by decide)).not_startsName
  · rw [hchars]
    exact stuck_members ht k

/-- A flat intersection is read for itself. -/
theorem printed_intersection {text : String} {ts : List TypeExpr} (hlength : 2 ≤ ts.length)
    (h : ∀ t ∈ ts, Printed t) (hforms : ∀ t ∈ ts, t.isIntersection = false) :
    Printed (.intersection text ts) := by
  obtain ⟨t, u, ts, rfl⟩ : ∃ t u us, ts = t :: u :: us := by
    match ts with
    | t :: u :: ts => exact ⟨t, u, ts, rfl⟩
  have hchars : (TypeExpr.intersection text (t :: u :: ts)).render.toList = _ :=
    (congrArg String.toList (by rw [render, renderIntersection_eq_map]; rfl)).trans
      (toList_intercalate_members false t (u :: ts))
  have ht := h t List.mem_cons_self
  have hstarts :
      Reader.starts (TypeExpr.intersection text (t :: u :: ts)).render.toList = true := by
    rw [hchars]
    exact starts_append (ht.starts_memberText _) _
  have hread : ∀ ⦃m⦄, levelsFor (TypeExpr.intersection text (t :: u :: ts)).render.toList ≤ m + 1 →
      ∀ ⦃k⦄, Closes [',', ')', '>', '|'] k → Reads (intersectionType (Grammar.level m))
        (TypeExpr.intersection text (t :: u :: ts)).render.toList k
          (TypeExpr.intersection text (t :: u :: ts)).outline := by
    intro m hm k hk
    rw [hchars] at hm ⊢
    exact reads_joint_members false h hforms hm (hk.mono (by decide))
      (hk.head?_ne (by decide))
  refine ⟨hstarts, fun m hm k hk => ?_, fun _ _ => hread,
    fun hgrouped => Bool.noConfusion hgrouped, fun m k _ _ => ?_⟩
  · have hintersection := hread hm (hk.mono (by decide))
    have hmark := hintersection.head?_ne hstarts fun _ _ _ hi => intersectionType_eq_none hi
    exact (hintersection.single true hstarts hmark (hk.head?_ne (by decide))).type
      (hk.mono (by decide)).not_startsName
  · rw [hchars]
    exact stuck_members ht k

/-- An array is read for itself. -/
theorem printed_array {text : String} {e : TypeExpr} (h : Printed e) :
    Printed (.array text e) := by
  have hchars : (TypeExpr.array text e).render.toList =
      (parenthesized e.isGrouped e.render).toList ++ ['[', ']'] := by
    rw [render, String.toList_append]
    rfl
  have hlevels : levelsFor (parenthesized e.isGrouped e.render).toList ≤
      levelsFor (TypeExpr.array text e).render.toList := by
    rw [hchars, levelsFor, levelsFor, String.utf8Len_append]
    omega
  rw [toList_parenthesized] at hchars hlevels
  by_cases hgrouped : e.isGrouped = true
  · rw [if_pos hgrouped] at hchars hlevels
    refine .of_operand ?_ (fun m hm k hk => ?_) (fun m k _ _ => ?_) rfl
    · rw [hchars]
      rfl
    · rw [hchars]
      have hclosers : Closes closers k := hk.mono (by decide)
      exact (h.group hgrouped (hlevels.trans hm) rfl).array (stopsAtBracket_level m) hclosers.opens
    · rw [hchars]
      exact stuck_of_mem_stuckMarks (by decide) _
  · rw [if_neg hgrouped] at hchars hlevels
    have hnot : e.isGrouped = false := by simpa using hgrouped
    have hbrackets : ∀ k, Closes operandMarks ('[' :: ']' :: k) := by
      rintro k c ⟨⟩
      decide
    refine .of_operand ?_ (fun m hm k hk => ?_) (fun m k hk hstuck => ?_) rfl
    · rw [hchars]
      exact starts_append h.starts _
    · rw [hchars]
      have hclosers : Closes closers k := hk.mono (by decide)
      exact (h.operand hnot (hlevels.trans hm) (hbrackets k)).array
        (stopsAtBracket_level m) hclosers.opens
    · rw [hchars, List.append_assoc]
      exact h.stuck (hbrackets k) fun _ => hstuck.brackets hk

/-- A word of a type is read for itself. -/
theorem printed_keyword {name : String}
    (h : name ∈ predefinedTypes ∨ name ∈ ["null", "undefined"]) :
    Printed (.keyword name) := by
  have hall : ∀ name ∈ predefinedTypes ++ ["null", "undefined"],
      isWord name.toList = true ∧ name ∉ parameterWords := by decide
  obtain ⟨hw, hword⟩ := hall name (List.mem_append.2 h)
  refine .of_operand (starts_of_isWord hw) (fun m _ k hk => readsOperand_of_reads ?_)
    (fun m k hk hstuck => hstuck.word hk hw (by rwa [render, String.ofList_toList])) rfl
  rcases h with h | h
  · exact reads_of_mem_predefinedTypes h (hk.mono (by decide))
  · exact reads_of_emptyValue h (hk.mono (by decide))

/-- A plain string is read for itself. -/
theorem printed_literal {text : String} (h : IsPlainString text.toList) :
    Printed (.literal text) :=
  .of_operand (starts_of_isPlainString h)
    (fun _ _ _ hk =>
      readsOperand_of_reads (reads_stringLiteral h (hk.mono operandMarks_subset_closers)))
    (fun _ k _ _ => stuck_of_isPlainString h k) rfl

/-- The name of a type starts with a visible character. -/
private theorem starts_of_isTypeName {cs : List Char} (h : IsTypeName cs) :
    Reader.starts cs = true := by
  obtain ⟨w, ws, rfl, hw, -⟩ := h
  exact starts_append (starts_of_isWord hw) _

/-- The texts of arguments with what they are read for. -/
def argumentPieces (ts : List TypeExpr) : List (List Char × TypeExpr) :=
  ts.map fun t => (t.render.toList, t.outline)

/-- Behind an argument there is a comma or the closing bracket. -/
private theorem closes_arguments (ts : List TypeExpr) (k : List Char) :
    Closes [',', ')', '>'] (separated argumentSeparator (argumentPieces ts) ++ '>' :: k) := by
  cases ts with
  | nil =>
    rintro c ⟨⟩
    decide
  | cons t ts =>
    rintro c ⟨⟩
    decide

/-- Each argument is read before those behind it. -/
theorem readsEach_arguments {ts : List TypeExpr} (h : ∀ t ∈ ts, Printed t)
    (hm : ∀ t ∈ ts, levelsFor t.render.toList ≤ m + 1) :
    ReadsEach (type (Grammar.level m)) argumentSeparator ('>' :: k) (argumentPieces ts) := by
  induction ts with
  | nil => trivial
  | cons t ts ih =>
    obtain ⟨ht, h⟩ := List.forall_mem_cons.1 h
    obtain ⟨hmt, hm⟩ := List.forall_mem_cons.1 hm
    exact ⟨ht.starts, ht.whole hmt (closes_arguments ts k), ih h hm⟩

/-- A name is read for a reference with its arguments. -/
theorem printed_reference {text name : String} {arguments : List TypeExpr}
    {d : Option TypeDeclaration}
    (hname : IsTypeName (referenceName (if name = "" then text else name) d).toList)
    (h : ∀ t ∈ arguments, Printed t) : Printed (.reference text name arguments d) := by
  match arguments with
  | [] =>
    exact .of_operand (starts_of_isTypeName hname)
      (fun m _ k hk => readsOperand_of_reads (reads_of_isTypeName hname hk))
      (fun m k hk hstuck => hstuck.isTypeName hk hname) rfl
  | t :: ts =>
    have hchars : (TypeExpr.reference text name (t :: ts) d).render.toList =
        (referenceName (if name = "" then text else name) d).toList ++ '<' ::
          (t.render.toList ++ (separated argumentSeparator (argumentPieces ts) ++ ['>'])) := by
      have hlist : (String.intercalate ", " (renderAll (t :: ts))).toList =
          t.render.toList ++ separated argumentSeparator (argumentPieces ts) := by
        rw [renderAll_eq_map, List.map_cons, toList_intercalate_cons, separated, argumentPieces,
          List.flatMap_map, List.flatMap_map]
        rfl
      rw [render, if_neg (by simp), String.toList_append, String.toList_append,
        String.toList_append, hlist]
      simp
    obtain ⟨ht, hts⟩ := List.forall_mem_cons.1 h
    refine .of_operand ?_ (fun m hm k hk => readsOperand_of_reads ?_)
      (fun m k hk hstuck => ?_) rfl
    · rw [hchars]
      exact starts_append (starts_of_isTypeName hname) _
    · rw [hchars] at hm ⊢
      have hopening : '<'.utf8Size = 1 := by decide
      simp only [levelsFor, String.utf8Len_append, String.utf8Len_cons, hopening] at hm
      obtain ⟨m, rfl⟩ : ∃ l, m = l + 1 := ⟨m - 1, by omega⟩
      -- The brackets around the arguments make up for the level that is used.
      have hlevels : ∀ u ∈ t :: ts, levelsFor u.render.toList ≤ m + 1 := by
        intro u hu
        simp only [levelsFor]
        rcases List.mem_cons.1 hu with rfl | hu
        · omega
        · have hpiece : (u.render.toList, u.outline) ∈ argumentPieces ts := List.mem_map_of_mem hu
          have hle : String.utf8Len u.render.toList ≤
            String.utf8Len (separated argumentSeparator (argumentPieces ts)) :=
              utf8Len_le_separated hpiece
          omega
      obtain ⟨hlevel, hlevels⟩ := List.forall_mem_cons.1 hlevels
      have hclosers : Closes closers k := hk.mono (by decide)
      have hread := reads_generic (g := Grammar.level (m + 1)) hname
        (ht.whole hlevel (closes_arguments ts k)) ht.starts (readsEach_arguments hts hlevels)
        hclosers.opens
      rw [argumentPieces, List.map_map] at hread
      rw [outline, outlineAll, outlineAll_eq_map]
      exact hread
    · rw [hchars, List.append_assoc]
      refine Stuck.isTypeName (stuck_of_mem_stuckMarks (by decide) _) ?_ hname
      rintro c ⟨⟩
      decide

mutual

/-- A flat type that is printed plainly is read for itself where it can stand. -/
theorem printed_of_isPlainlyPrinted (t : TypeExpr) (hflat : t.IsFlat) (h : t.IsPlainlyPrinted) :
    Printed t := by
  match t with
  | .reference text name arguments d =>
    exact printed_reference h.1 (printed_of_arePlainlyPrinted arguments hflat h.2)
  | .keyword name => exact printed_keyword h
  | .literal text => exact printed_literal h
  | .union text members =>
    exact printed_union h.1 (printed_of_arePlainlyPrinted members hflat.2 h.2) hflat.1
  | .intersection text members =>
    exact printed_intersection h.1 (printed_of_arePlainlyPrinted members hflat.2 h.2) hflat.1
  | .array text element =>
    exact printed_array (printed_of_isPlainlyPrinted element hflat h)
  | .function .. => exact h.elim
  | .object .. => exact h.elim
  | .tuple .. => exact h.elim
  | .indexed .. => exact h.elim
  | .query .. => exact h.elim
  | .raw .. => exact h.elim

/-- Types that are printed plainly are printed as the grammar has them. -/
private theorem printed_of_arePlainlyPrinted (ts : List TypeExpr) (hflat : AreFlat ts)
    (h : ArePlainlyPrinted ts) : ∀ t ∈ ts, Printed t := by
  match ts with
  | [] => exact List.forall_mem_nil _
  | t :: ts =>
    exact List.forall_mem_cons.2 ⟨printed_of_isPlainlyPrinted t hflat.1 h.1,
      printed_of_arePlainlyPrinted ts hflat.2 h.2⟩

end

end TypeExpr

end StableProps

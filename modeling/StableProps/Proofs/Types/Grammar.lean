import StableProps.Proofs.Syntax.Reading
import StableProps.Proofs.Types.Outline
import StableProps.Syntax.Reader.Types

/-!
# What the grammar of types reads

A text is read as a type of some outline if a reader takes just this text, whatever stands behind
it. From texts that are read as operands the grammar reads arrays of them, and from texts that are
read one by one it reads them as arguments and as the members of unions and intersections.
-/

namespace StableProps

namespace Node

open TypeExpr (unbound build)

/-! ## Outlines of nodes as the grammar makes them -/

/-- The outline of a branch is built from its children laid bare. -/
private theorem outline_branch (kind : Kind) (cs : List Node) : (Reader.branch kind cs).outline =
    TypeExpr.outline
      (Id.run (build unbound ⟨0, .rule kind, none, 0, 0, "", bareAll cs⟩)) := by
  rw [outline, Reader.branch, bare]

theorem isNamed_of_is {n : Node} {kind : Kind} (h : n.is kind = true) : n.isNamed = true := by
  rw [isNamed, kind?, show n.label = .rule kind from eq_of_beq h]
  rfl

/-- The first named node below is the element of an array. -/
theorem outline_arrayType {element : Node} (h : element.isNamed = true) (cs : List Node) :
    (Reader.branch .arrayType (element :: cs)).outline = .array "" element.outline := by
  rw [outline_branch, bareAll, build.eq_def]
  dsimp only
  rw [TypeExpr.buildFirst, isNamed_bare, if_pos h]
  rfl

/-- Parentheses do not show. -/
theorem outline_parenthesizedType {opening inside : Node} (ho : opening.isNamed = false)
    (h : inside.isNamed = true) (cs : List Node) :
    (Reader.branch .parenthesizedType (opening :: inside :: cs)).outline = inside.outline := by
  rw [outline_branch, bareAll, bareAll, build.eq_def]
  dsimp only
  rw [TypeExpr.buildFirst, isNamed_bare, ho, if_neg Bool.false_ne_true, TypeExpr.buildFirst,
    isNamed_bare, if_pos h]
  rfl

/-- The outlines of the named nodes of a list. -/
theorem outlineAll_buildNamed (cs : List Node) :
    TypeExpr.outlineAll (Id.run (TypeExpr.buildNamed unbound (bareAll cs))) =
      (cs.filter isNamed).map outline := by
  induction cs with
  | nil => rfl
  | cons c cs ih =>
    rw [bareAll, TypeExpr.buildNamed, isNamed_bare, List.filter_cons]
    split
    · rw [List.map_cons, ← ih]
      rfl
    · exact ih

/-- A union or intersection by the outlines of what it is made of. -/
theorem outlineAll_buildFlat (isUnion : Bool) (cs : List Node) :
    TypeExpr.outlineAll (Id.run (TypeExpr.buildFlat unbound isUnion (bareAll cs))) =
      ((cs.filter isNamed).map outline).flatMap (TypeExpr.sameForm isUnion) := by
  induction cs with
  | nil => rfl
  | cons c cs ih =>
    rw [bareAll, TypeExpr.buildFlat, isNamed_bare, List.filter_cons]
    split
    · rw [List.map_cons, List.flatMap_cons, ← ih, outline, ← TypeExpr.outlineAll_sameForm,
        ← TypeExpr.outlineAll_append]
      rfl
    · exact ih

/-- A union has the outline of its members, with those of unions among them taken over. -/
private theorem outline_unionType (cs : List Node) : (Reader.branch .unionType cs).outline =
    .union "" (((cs.filter isNamed).map outline).flatMap (TypeExpr.sameForm true)) := by
  rw [outline_branch, ← outlineAll_buildFlat, build.eq_def]
  rfl

/-- So has an intersection. -/
private theorem outline_intersectionType (cs : List Node) :
    (Reader.branch .intersectionType cs).outline =
      .intersection ""
        (((cs.filter isNamed).map outline).flatMap (TypeExpr.sameForm false)) := by
  rw [outline_branch, ← outlineAll_buildFlat, build.eq_def]
  rfl

/-- The words of the empty values are their types. -/
theorem outline_emptyValue {n : Node}
    (h : n.is .nullLiteral = true ∨ n.is .undefinedKeyword = true) :
    (Reader.branch .literalType [n]).outline = .keyword "" := by
  have hnamed : n.isNamed = true := h.elim isNamed_of_is isNamed_of_is
  have hfirst : firstNamed? ⟨0, .rule .literalType, none, 0, 0, "", bareAll [n]⟩ = some n.bare := by
    simp [firstNamed?, bareAll, hnamed]
  rw [outline_branch, build.eq_def]
  dsimp only
  rw [hfirst]
  dsimp only
  rw [is_bare, is_bare]
  rcases h with h | h
  · cases n.is .undefinedKeyword <;> simp [h] <;> rfl
  · simp [h]
    rfl

/-- The words of predefined types are keywords. -/
theorem outline_predefinedType {n : Node} (h : n.is .predefinedType = true) :
    n.outline = .keyword "" := by
  obtain ⟨id, label, field, start, stop, text, children⟩ := n
  obtain rfl : label = .rule .predefinedType := eq_of_beq h
  rw [outline, bare, build.eq_def]
  rfl

/-- A string is the literal it stands for. -/
theorem outline_stringLiteral {n : Node} (h : n.is .stringLiteral = true) :
    (Reader.branch .literalType [n]).outline = .literal "" := by
  have hlabel : n.label = .rule .stringLiteral := eq_of_beq h
  have hnamed : n.isNamed = true := isNamed_of_is h
  have hfirst : firstNamed? ⟨0, .rule .literalType, none, 0, 0, "", bareAll [n]⟩ = some n.bare := by
    simp [firstNamed?, bareAll, hnamed]
  have hundefined : n.is .undefinedKeyword = false := by
    rw [is, hlabel]
    rfl
  have hnull : n.is .nullLiteral = false := by
    rw [is, hlabel]
    rfl
  rw [outline_branch, build.eq_def]
  dsimp only
  rw [hfirst]
  dsimp only
  rw [is_bare, is_bare, hundefined, hnull]
  rfl

/-- A name that is bound to nothing has the outline of its arguments. -/
private theorem outline_bound (text name : String) (q : Option String) (arguments : List TypeExpr) :
    TypeExpr.outline (Id.run (TypeExpr.bound unbound text name q arguments)) =
      .reference "" "" (TypeExpr.outlineAll arguments) none := by
  simp only [TypeExpr.bound, unbound]
  cases q.filter (· ≠ "") <;> rfl

private theorem outline_ofName (text : String) (name : Node) (arguments : List TypeExpr) :
    TypeExpr.outline (Id.run (TypeExpr.ofName unbound text name arguments)) =
      .reference "" "" (TypeExpr.outlineAll arguments) none := by
  rw [TypeExpr.ofName]
  cases name.is .nestedTypeIdentifier <;> cases name.child? .qualifier <;>
    cases name.child? .name <;> exact outline_bound _ _ _ _

/-- A name stands for a reference without arguments. -/
theorem outline_of_isName {n : Node}
    (h : n.is .typeIdentifier = true ∨ n.is .nestedTypeIdentifier = true) :
    n.outline = .reference "" "" [] none := by
  obtain ⟨id, label, field, start, stop, text, children⟩ := n
  rw [outline, bare, build.eq_def]
  rcases h with h | h
  · obtain rfl : label = .rule .typeIdentifier := eq_of_beq h
    exact outline_bound _ _ _ _
  · obtain rfl : label = .rule .nestedTypeIdentifier := eq_of_beq h
    exact outline_ofName _ _ _

/-- A name with arguments stands for a reference with the arguments of its list. -/
theorem outline_genericType (name : Node) (arguments : List Node) :
    (Reader.branch .genericType [Reader.inField .name name,
      Reader.inField .typeArguments (Reader.branch .typeArguments arguments)]).outline =
      .reference "" "" ((arguments.filter isNamed).map outline) none := by
  rw [← outlineAll_buildNamed, outline_branch, build.eq_def]
  exact outline_ofName _ _ _

end Node

namespace Reader

variable {g : Grammar} {r : Reader Node} {cs k : List Char} {o : TypeExpr}

/-! ## Texts that are read -/

/-- A reader takes `cs` for a type of an outline if `k` stands behind. -/
def Reads (r : Reader Node) (cs k : List Char) (o : TypeExpr) : Prop :=
  ∀ ⦃size i⦄, At size i (cs ++ k) →
    ∃ n j, r i = some (n, j) ∧ n.isNamed = true ∧ n.outline = o ∧ At size j (skipSpace k)

/-- A group of brackets behind a type. -/
def brackets (g : Grammar) : Reader (List Node) := whenInput (fun i => !i.newline) do
  let opening ← token "["
  let inside ← atMostOne g.type
  let closing ← token "]"
  return [branch .arrayType (opening :: inside ++ [closing])]

/-- The grammar takes `cs` for an operand of an outline if `k` stands behind: a type with groups of
brackets, to which groups behind it can be added. -/
def ReadsOperand (g : Grammar) (cs k : List Char) (o : TypeExpr) : Prop :=
  ∀ ⦃size i⦄, At size i (cs ++ k) → ∃ first groups i' j,
    primaryType g i = some (first, i') ∧ Steps (brackets g) i' groups j ∧
      (groups.foldl arrayType.wrap first).isNamed = true ∧
        (groups.foldl arrayType.wrap first).outline = o ∧ At size j (skipSpace k)

/-- One of the given marks is next behind a blank, or nothing. -/
def Closes (marks k : List Char) : Prop := ∀ c ∈ (skipSpace k).head?, c ∈ marks

/-- The marks that stand behind types and their names. -/
def closers : List Char := [',', ')', '>', '|', '&', '[', '<', '.']

/-- More marks may close. -/
theorem Closes.mono {marks more : List Char} (hk : Closes marks k) (h : marks ⊆ more) :
    Closes more k :=
  fun c hc => h (hk c hc)

/-- What closes by some marks does not start with another one. -/
theorem Closes.head?_ne {marks : List Char} (hk : Closes marks k) {c : Char} (hc : c ∉ marks) :
    (skipSpace k).head? ≠ some c :=
  fun h => hc (hk c h)

theorem Closes.opens (hk : Closes closers k) : opens (skipSpace k) = true := by
  cases hs : skipSpace k with
  | nil => rfl
  | cons c cs =>
    have hc : c ∈ closers := hk c (by rw [hs]; rfl)
    have hmarks : closers.all (fun c => !isBlank c && c != '/') = true := by decide
    exact List.all_eq_true.1 hmarks c hc

/-- What closes does not go on with a name. -/
theorem Closes.not_startsName (hk : Closes closers k) :
    (skipSpace k).head?.any isNameStart = false := by
  cases hs : skipSpace k with
  | nil => rfl
  | cons c cs =>
    have hc : c ∈ closers := hk c (by rw [hs]; rfl)
    have hmarks : closers.any isNameStart = false := by decide
    exact Bool.eq_false_iff.2 (List.any_eq_false.1 hmarks c hc)

/-- What closes ends a name. -/
theorem Closes.endsName (hk : Closes closers k) : endsName k = true := by
  rw [Closes, skipSpace.eq_def] at hk
  split at hk
  · rfl
  · cases k with
    | nil => rfl
    | cons c cs =>
      have hmarks : closers.all (!isNamePart ·) = true := by decide
      exact List.all_eq_true.1 hmarks c (hk c rfl)

/-! ## Where no type is read -/

section

variable {size : Nat} {i : Input}

/-- Without a quote there is no text. -/
private theorem stringLiteral_eq_none (h : At size i cs) (hd : cs.head? ≠ some doubleQuote)
    (hs : cs.head? ≠ some singleQuote) : stringLiteral i = none := by
  have hquoted : ∀ {s : String} {p : Char} (inside : Reader Node), s.toList = [p] →
      cs.head? ≠ some p → quotedBy s inside i = none := by
    intro s p inside hp hne
    rw [quotedBy, bind_of_none (h.rawToken_eq_none hp hne)]
  rw [stringLiteral, bind_of_none]
  rw [orElse_of_none (hquoted _ rfl hd)]
  exact hquoted _ rfl hs

/-- Without a digit or a dot there is no number. -/
private theorem numberLiteral_eq_none (h : At size i cs) (hd : cs.head?.any Char.isDigit = false)
    (hdot : cs.head? ≠ some '.') : numberLiteral i = none := by
  rw [numberLiteral, get_bind]
  dsimp only
  rw [if_pos, bind_of_none rfl]
  rw [h.rest, Bool.not_eq_true']
  split
  · exact absurd rfl hdot
  · exact hd
  · rfl

/-- The marks that literals start with. -/
def literalMarks : List Char := [doubleQuote, singleQuote, '.', '-', '+']

/-- Words that are literals. -/
def literalWords : List String := ["true", "false", "null", "undefined"]

/-- Where no mark and no digit starts a literal, only a word is one. -/
theorem literal_eq_constant (h : At size i cs) (hmark : ∀ c ∈ cs.head?, c ∉ literalMarks)
    (hdigit : cs.head?.any Char.isDigit = false) : literalType.literal i =
      (literalType.constant "true" .trueLiteral <|> literalType.constant "false" .falseLiteral <|>
        literalType.constant "null" .nullLiteral <|>
          literalType.constant "undefined" .undefinedKeyword) i := by
  have hne : ∀ c ∈ literalMarks, cs.head? ≠ some c := fun c hc hhead => hmark c hhead hc
  have hsign : (token "-" <|> token "+") i = none := by
    rw [orElse_of_none (h.token_eq_none rfl (hne '-' (by decide)))]
    exact h.token_eq_none rfl (hne '+' (by decide))
  rw [literalType.literal, orElse_of_none (stringLiteral_eq_none h (hne _ (by decide))
    (hne _ (by decide))), orElse_of_none (numberLiteral_eq_none h hdigit (hne _ (by decide))),
    orElse_of_none]
  rw [literalType.negative, bind_of_none hsign]

theorem constant_eq_none {word : String} (h : i.word ≠ word) (kind : Kind) :
    literalType.constant word kind i = none := by
  rw [literalType.constant, whenInput, if_neg (by simpa using h)]

/-- Without a mark, a digit or a word of their own there is no literal. -/
theorem literalType_eq_none (h : At size i cs) (hmark : ∀ c ∈ cs.head?, c ∉ literalMarks)
    (hdigit : cs.head?.any Char.isDigit = false) (hword : i.word ∉ literalWords) :
    literalType i = none := by
  have hconstant : ∀ word ∈ literalWords, ∀ kind, literalType.constant word kind i = none :=
    fun word hmem => constant_eq_none fun heq => hword (heq ▸ hmem)
  rw [literalType]
  refine map_of_none ?_
  rw [literal_eq_constant h hmark hdigit, orElse_of_none (hconstant _ (by decide) _),
    orElse_of_none (hconstant _ (by decide) _), orElse_of_none (hconstant _ (by decide) _)]
  exact hconstant _ (by decide) _

/-- Words that start a type of their own form. -/
def typeWords : List String :=
  ["typeof", "new", "this", "import", "unique", "abstract", "keyof", "readonly", "infer"]

/-- The marks that types of their own form start with. -/
def typeMarks : List Char := ['(', '<', '[', '\x7b', backquote]

/-- Whether a type can start with a character. -/
def opensType (c : Char) : Bool :=
  isNameStart c || c.isDigit || (typeMarks ++ literalMarks).contains c

/-- A type that does not start a form of its own. -/
def plainType (g : Grammar) (w : String) : Reader Node :=
  if predefinedTypes.contains w then (fun t => branch .predefinedType [t]) <$> keyword w
  else literalType <|> typeReference g

/-- What does not start a form of its own is a word with a fixed meaning, a literal or a name. -/
theorem primaryType_of_word (h : At size i cs) (hmark : ∀ c ∈ cs.head?, c ∉ typeMarks)
    (hword : i.word ∉ typeWords) : primaryType g i = plainType g i.word i := by
  have hne : ∀ c ∈ typeMarks, cs.head? ≠ some c := fun c hc hhead => hmark c hhead hc
  have hstart : ∀ (s : String) (c : Char), s.toList = [c] → c ∈ typeMarks →
      ¬i.startsWith s = true := by
    intro s c hs hc
    rw [h.startsWith_eq_false hs (hne c hc)]
    exact Bool.false_ne_true
  have hquote : ¬(Option.map (· == backquote) i.peek?).getD false = true := by
    rw [Input.peek?, h.rest]
    cases hcs : cs.head? with
    | none => simp
    | some c =>
      rw [Option.map_some, Option.getD_some, beq_iff_eq]
      rintro rfl
      exact hne backquote (by decide) hcs
  rw [primaryType, get_bind, if_neg (hstart "(" '(' rfl (by decide)),
    if_neg (hstart "<" '<' rfl (by decide)), if_neg (hstart "[" '[' rfl (by decide)),
    if_neg (hstart "\x7b" '\x7b' rfl (by decide)), if_neg hquote]
  generalize i.word = w at hword ⊢
  split
  case h_10 => rfl
  all_goals exact absurd (by decide) hword

/-- No type starts with a character that cannot start one. -/
theorem primaryType_eq_none {c : Char} (h : At size i (c :: cs)) (hc : opensType c = false) :
    primaryType g i = none := by
  have hnot : isNameStart c = false ∧ c.isDigit = false ∧ c ∉ typeMarks ∧ c ∉ literalMarks := by
    simp only [opensType, Bool.or_eq_false_iff, List.contains_eq_mem, decide_eq_false_iff_not,
      List.mem_append, not_or] at hc
    exact ⟨hc.1.1, hc.1.2, hc.2⟩
  have hword : i.word = "" := by rw [Input.word, h.wordChars_eq_nil hnot.1]
  have hmark : ∀ d ∈ (c :: cs).head?, d ∉ typeMarks := by
    rintro d ⟨⟩
    exact hnot.2.2.1
  have hliteral : literalType i = none := by
    refine literalType_eq_none h ?_ hnot.2.1 (by rw [hword]; decide)
    rintro d ⟨⟩
    exact hnot.2.2.2
  rw [primaryType_of_word h hmark (by rw [hword]; decide), hword, plainType,
    if_neg (by decide), orElse_of_none hliteral, typeReference, get_bind, hword,
    if_neg (by decide)]
  exact bind_of_none (h.nameLeaf_eq_none hnot.1 _)

/-- Without a mark or a type there are no joined types. -/
private theorem joinedTypes_eq_none {kind : Kind} {mark : String} {follower c : Char}
    {ps : List Char} (h : At size i cs) (hmark : mark.toList = c :: ps) (hne : cs.head? ≠ some c)
    (hr : r i = none) : joinedTypes kind mark follower r i = none := by
  rw [joinedTypes, bind_of_some (atMostOne_of_none (h.tokenUnless_eq_none hmark hne)),
    bind_of_none hr]

theorem arrayType_eq_none {c : Char} (h : At size i (c :: cs)) (hc : opensType c = false) :
    arrayType g i = none := by
  rw [arrayType, bind_of_none (primaryType_eq_none h hc)]

private theorem head?_cons_ne {c d : Char} (h : c ≠ d) (cs : List Char) :
    (c :: cs).head? ≠ some d :=
  fun heq => h (Option.some.inj heq)

/-- No type starts with a closing mark. -/
theorem type_eq_none {c : Char} (h : At size i (c :: cs)) (hc : opensType c = false)
    (hor : c ≠ '|') (hand : c ≠ '&') : type g i = none := by
  rw [type, bind_of_none]
  refine joinedTypes_eq_none h rfl (head?_cons_ne hor cs) ?_
  exact joinedTypes_eq_none h rfl (head?_cons_ne hand cs) (arrayType_eq_none h hc)

end

/-! ## Operands -/

/-- The grammar reads no type at a closing bracket. -/
def StopsAtBracket (g : Grammar) : Prop :=
  ∀ ⦃size i cs⦄, At size i (']' :: cs) → g.type i = none

/-- Without an opening bracket there are no brackets. -/
private theorem brackets_eq_none {size : Nat} {i : Input} (h : At size i cs)
    (hne : cs.head? ≠ some '[') : brackets g i = none := by
  rw [brackets, whenInput, h.sameLine, Bool.not_false, if_pos rfl,
    bind_of_none (h.token_eq_none rfl hne)]

/-- An operand before anything but a bracket is read with all its brackets. -/
theorem ReadsOperand.arrayType (h : ReadsOperand g cs k o)
    (hk : (skipSpace k).head? ≠ some '[') : Reads (arrayType g) cs k o := by
  intro size i hi
  obtain ⟨first, groups, i', j, hfirst, hsteps, hnamed, ho, hj⟩ := h hi
  refine ⟨_, j, ?_, hnamed, ho, hj⟩
  rw [Reader.arrayType, bind_of_some hfirst]
  exact bind_of_some (many_of_steps hsteps (brackets_eq_none hj hk) hj.offset_le_size)

/-- What is read without brackets is an operand. -/
theorem readsOperand_of_reads (h : Reads (primaryType g) cs k o) : ReadsOperand g cs k o := by
  intro size i hi
  obtain ⟨n, j, hr, hnamed, ho, hj⟩ := h hi
  exact ⟨n, [], j, j, hr, .refl, hnamed, ho, hj⟩

/-- Empty brackets are a group of their own. -/
theorem brackets_of_empty (hg : StopsAtBracket g) {size : Nat} {i : Input}
    (h : At size i ('[' :: ']' :: k)) (hk : opens (skipSpace k) = true) :
    ∃ opening closing j, brackets g i = some ([branch .arrayType [opening, closing]], j) ∧
      At size j (skipSpace k) := by
  obtain ⟨opening, j, hopening, -, hj⟩ := At.token (s := "[") (k := ']' :: k) h rfl
  obtain ⟨closing, l, hclosing, -, hl⟩ := At.token (s := "]") hj hk
  refine ⟨opening, closing, l, ?_, hl⟩
  rw [brackets, whenInput, h.sameLine, Bool.not_false, if_pos rfl, bind_of_some hopening,
    bind_of_some (atMostOne_of_none (hg hj)), bind_of_some hclosing]
  rfl

/-- Empty brackets behind an operand make it the element of an array. -/
theorem ReadsOperand.array (hg : StopsAtBracket g) (h : ReadsOperand g cs ('[' :: ']' :: k) o)
    (hk : opens (skipSpace k) = true) :
    ReadsOperand g (cs ++ ['[', ']']) k (.array "" o) := by
  intro size i hi
  rw [List.append_assoc] at hi
  obtain ⟨first, groups, i', j, hfirst, hsteps, hnamed, rfl, hj⟩ := h hi
  obtain ⟨opening, closing, l, hgroup, hl⟩ := brackets_of_empty hg hj hk
  have hlt : j.Before l := by
    refine hj.before hl ?_
    have hle := utf8Len_skipSpace_le k
    have hpos := Char.utf8Size_pos '['
    have hcons : String.utf8Len (skipSpace ('[' :: ']' :: k)) =
        String.utf8Len k + ']'.utf8Size + '['.utf8Size := rfl
    omega
  refine ⟨first, groups ++ [branch .arrayType [opening, closing]], i', l, hfirst,
    hsteps.trans (.one hgroup hlt), ?_, ?_, hl⟩
  · rw [List.foldl_append]
    rfl
  · rw [List.foldl_append]
    exact Node.outline_arrayType hnamed _

/-- A type in parentheses is an operand unless they are those of parameters. -/
theorem Reads.parenthesized (h : Reads g.type cs (')' :: k) o) (hcs : starts cs = true)
    (hk : opens (skipSpace k) = true)
    (hparameters : ∀ ⦃size i⦄, At size i ('(' :: (cs ++ ')' :: k)) → formalParameters g i = none) :
    ReadsOperand g ('(' :: (cs ++ [')'])) k o := by
  refine readsOperand_of_reads ?_
  intro size i hi
  have hi : At size i ('(' :: (cs ++ ')' :: k)) := by simpa using hi
  have hspace : skipSpace (cs ++ ')' :: k) = cs ++ ')' :: k := skipSpace_append_of_starts hcs _
  obtain ⟨opening, j, hopening, hmark, hj⟩ := At.token (s := "(") (k := cs ++ ')' :: k) hi (by
    rw [hspace]
    exact opens_append_of_starts hcs _)
  rw [hspace] at hj
  obtain ⟨n, l, hinside, hnamed, ho, hl⟩ := h hj
  obtain ⟨closing, l', hclosing, -, hl'⟩ := At.token (s := ")") hl hk
  refine ⟨branch .parenthesizedType [opening, n, closing], l', ?_, rfl,
    (Node.outline_parenthesizedType hmark hnamed _).trans ho, hl'⟩
  have hfunction : functionType g i = none := by
    have hgenerics : typeParameters g i = none := by
      rw [typeParameters, bind_of_none (hi.token_eq_none (p := '<') rfl (by simp))]
    rw [functionType, bind_of_some (atMostOne_of_none (map_of_none hgenerics)),
      bind_of_none (hparameters hi)]
  rw [primaryType, get_bind, if_pos (hi.startsWith_eq_true (s := "(")), orElse_of_none hfunction,
    primaryType.parenthesizedType, bind_of_some hopening, bind_of_some hinside,
    bind_of_some hclosing]
  rfl

/-! ## Texts one after the other -/

/-- Texts that each stand behind a separator. -/
def separated (sep : List Char) (pieces : List (List Char × TypeExpr)) : List Char :=
  pieces.flatMap fun p => sep ++ p.1

/-- Each of some texts is read for a type of its outline before the texts behind it. -/
def ReadsEach (r : Reader Node) (sep k : List Char) : List (List Char × TypeExpr) → Prop
  | [] => True
  | p :: ps => starts p.1 = true ∧ Reads r p.1 (separated sep ps ++ k) p.2 ∧ ReadsEach r sep k ps

/-- What a reader of marks takes behind a blank. -/
structure ReadsMark (sign : Reader Node) (sep : List Char) (mark : Char) : Prop where
  separator : ∀ cs, skipSpace (sep ++ cs) = mark :: ' ' :: cs
  some : ∀ ⦃size i cs⦄, At size i (mark :: ' ' :: cs) → opens cs = true →
    ∃ t j, sign i = some (t, j) ∧ t.isNamed = false ∧ At size j cs
  none : ∀ ⦃size i cs⦄, At size i cs → cs.head? ≠ Option.some mark → sign i = Option.none

/-- Texts behind separators are read one by one. -/
theorem ReadsEach.steps {sign : Reader Node} {sep : List Char} {mark : Char}
    (hsign : ReadsMark sign sep mark) (f : Node → Node → List Node)
    {ps : List (List Char × TypeExpr)} (h : ReadsEach r sep k ps) {size : Nat} {i : Input}
    (hi : At size i (skipSpace (separated sep ps ++ k))) :
    ∃ (found : List (Node × Node)) (j : Input),
      Steps (do let t ← sign; let n ← r; return f t n) i (found.flatMap fun p => f p.1 p.2) j ∧
        (∀ p ∈ found, p.1.isNamed = false ∧ p.2.isNamed = true) ∧
          found.map (·.2.outline) = ps.map (·.2) ∧ At size j (skipSpace k) := by
  induction ps generalizing i with
  | nil => exact ⟨[], i, .refl, List.forall_mem_nil _, rfl, hi⟩
  | cons p ps ih =>
    obtain ⟨hstarts, hread, hrest⟩ := h
    have htext : separated sep (p :: ps) ++ k = sep ++ (p.1 ++ (separated sep ps ++ k)) := by
      simp only [separated, List.flatMap_cons, List.append_assoc]
    rw [htext, hsign.separator] at hi
    obtain ⟨t, j, ht, hmark, hj⟩ := hsign.some hi (opens_append_of_starts hstarts _)
    obtain ⟨n, l, hn, hnamed, ho, hl⟩ := hread hj
    obtain ⟨found, e, hsteps, hfound, houtlines, he⟩ := ih hrest hl
    have hlt : i.Before l := by
      refine hi.before hl ?_
      have hle := utf8Len_skipSpace_le (separated sep ps ++ k)
      have hpos := Char.utf8Size_pos mark
      simp only [String.utf8Len_cons, String.utf8Len_append] at hle ⊢
      omega
    refine ⟨(t, n) :: found, e, .head ?_ hlt hsteps, ?_, ?_, he⟩
    · rw [bind_of_some ht, bind_of_some hn]
      rfl
    · exact List.forall_mem_cons.2 ⟨⟨hmark, hnamed⟩, hfound⟩
    · rw [List.map_cons, List.map_cons, houtlines, ho]

/-! ## Unions and intersections -/

/-- A union or intersection of some members. -/
def joint (isUnion : Bool) (members : List TypeExpr) : TypeExpr :=
  if isUnion then .union "" members else .intersection "" members

/-- The rule of unions or intersections. -/
def jointKind (isUnion : Bool) : Kind := if isUnion then .unionType else .intersectionType

/-- The mark of unions or intersections. -/
def jointMark (isUnion : Bool) : Char := if isUnion then '|' else '&'

/-- What stands between the members of unions or intersections. -/
def jointSeparator (isUnion : Bool) : List Char := [' ', jointMark isUnion, ' ']

/-- Reads a union or intersection. -/
def jointType (isUnion : Bool) (r : Reader Node) : Reader Node :=
  joinedTypes (jointKind isUnion) (String.singleton (jointMark isUnion)) (jointMark isUnion) r

private theorem sameForm_joint (isUnion : Bool) (members : List TypeExpr) :
    TypeExpr.sameForm isUnion (joint isUnion members) = members := by
  cases isUnion <;> rfl

private theorem outline_jointKind (isUnion : Bool) (cs : List Node) :
    (branch (jointKind isUnion) cs).outline =
      joint isUnion
        (((cs.filter Node.isNamed).map Node.outline).flatMap (TypeExpr.sameForm isUnion)) := by
  cases isUnion with
  | true => exact Node.outline_unionType cs
  | false => exact Node.outline_intersectionType cs

private theorem readsMark_joint (isUnion : Bool) :
    ReadsMark (tokenUnless (String.singleton (jointMark isUnion)) [jointMark isUnion])
      (jointSeparator isUnion) (jointMark isUnion) where
  separator cs := rfl
  some size i cs h hcs := by
    have hfollow : [jointMark isUnion].contains ' ' = false := by cases isUnion <;> rfl
    refine At.tokenUnless (k := ' ' :: cs) ?_ hcs hfollow
    rw [String.toList_singleton]
    exact h
  none size i cs h hne := h.tokenUnless_eq_none (String.toList_singleton _) hne

/-- Puts a member behind a union or intersection, or behind its first member. -/
def join (isUnion : Bool) (left : Node) (p : Node × Node) : Node :=
  branch (jointKind isUnion) [left, p.1, p.2]

/-- One more member is joined to the members there are. -/
theorem outline_join (isUnion : Bool) {left : Node} {p : Node × Node}
    (hleft : left.isNamed = true) (hp : p.1.isNamed = false ∧ p.2.isNamed = true) :
    (join isUnion left p).outline = joint isUnion
      (TypeExpr.sameForm isUnion left.outline ++ TypeExpr.sameForm isUnion p.2.outline) := by
  rw [join, outline_jointKind, List.filter_cons_of_pos hleft,
    List.filter_cons_of_neg (by simp [hp.1]), List.filter_cons_of_pos hp.2]
  simp

/-- Members that are joined one by one to the left are the members of one type. -/
theorem outline_foldl_join (isUnion : Bool) {left : Node} {os : List TypeExpr}
    (hleft : left.isNamed = true) (ho : left.outline = joint isUnion os)
    {found : List (Node × Node)} (hfound : ∀ p ∈ found, p.1.isNamed = false ∧ p.2.isNamed = true) :
    (found.foldl (join isUnion) left).isNamed = true ∧
      (found.foldl (join isUnion) left).outline = joint isUnion
        (os ++ (found.map (·.2.outline)).flatMap (TypeExpr.sameForm isUnion)) := by
  induction found generalizing left os with
  | nil => exact ⟨hleft, by simpa using ho⟩
  | cons p found ih =>
    obtain ⟨hp, hrest⟩ := List.forall_mem_cons.1 hfound
    have hjoin := outline_join isUnion hleft hp
    rw [ho, sameForm_joint] at hjoin
    rw [List.foldl_cons, List.map_cons, List.flatMap_cons, ← List.append_assoc]
    exact ih rfl hjoin hrest

/-- Parts that are read one by one are joined from the left. -/
private theorem foldl_parts_eq (isUnion : Bool) (found : List (Node × Node)) (left : Node) :
    (found.flatMap fun p => [branch (jointKind isUnion) [p.1, p.2]]).foldl
      (fun left part => branch (jointKind isUnion) (left :: part.children)) left =
        found.foldl (join isUnion) left := by
  induction found generalizing left with
  | nil => rfl
  | cons p found ih => exact ih _

/-- A single type is read as it is where a union or intersection can stand. -/
theorem Reads.single (isUnion : Bool) (h : Reads r cs k o) (hcs : starts cs = true)
    (hmark : cs.head? ≠ some (jointMark isUnion))
    (hk : (skipSpace k).head? ≠ some (jointMark isUnion)) : Reads (jointType isUnion r) cs k o := by
  intro size i hi
  have hsign := readsMark_joint isUnion
  obtain ⟨n, j, hn, hnamed, ho, hj⟩ := h hi
  have hhead : (cs ++ k).head? ≠ some (jointMark isUnion) := by
    cases cs with
    | nil => cases hcs
    | cons c cs => exact hmark
  have hlead := atMostOne_of_none (hsign.none hi hhead)
  refine ⟨n, j, ?_, hnamed, ho, hj⟩
  rw [jointType, joinedTypes, bind_of_some hlead, bind_of_some hn,
    bind_of_some (many_of_none (bind_of_none (hsign.none hj hk)))]
  rfl

/-- Texts joined by marks are read as one union or intersection of what they are read for, if
none of them is one itself. -/
theorem Reads.joint (isUnion : Bool) (h : Reads r cs (separated (jointSeparator isUnion) ps ++ k) o)
    (hcs : starts cs = true) (hmark : cs.head? ≠ some (jointMark isUnion))
    (hps : ReadsEach r (jointSeparator isUnion) k ps) (hne : ps ≠ [])
    (hforms : ∀ u ∈ o :: ps.map (·.2), TypeExpr.sameForm isUnion u = [u])
    (hk : (skipSpace k).head? ≠ some (jointMark isUnion)) :
    Reads (jointType isUnion r) (cs ++ separated (jointSeparator isUnion) ps) k
      (Reader.joint isUnion (o :: ps.map (·.2))) := by
  intro size i hi
  rw [List.append_assoc] at hi
  have hsign := readsMark_joint isUnion
  obtain ⟨n, j, hn, hnamed, rfl, hj⟩ := h hi
  obtain ⟨found, e, hsteps, hfound, houtlines, he⟩ :=
    hps.steps hsign (fun t n => [branch (jointKind isUnion) [t, n]]) hj
  have hhead : (cs ++ (separated (jointSeparator isUnion) ps ++ k)).head? ≠
      some (jointMark isUnion) := by
    cases cs with
    | nil => cases hcs
    | cons c cs => exact hmark
  have hlead := atMostOne_of_none (hsign.none hi hhead)
  have hmany := many_of_steps hsteps (bind_of_none (hsign.none he hk)) he.offset_le_size
  have hflat : ((n.outline :: ps.map (·.2)).flatMap (TypeExpr.sameForm isUnion)) =
      n.outline :: ps.map (·.2) := by
    rw [List.flatMap_congr hforms, List.flatMap_singleton']
  have hresult : jointType isUnion r i = some (found.foldl (join isUnion) n, e) := by
    rw [jointType, joinedTypes, bind_of_some hlead, bind_of_some hn]
    refine (bind_of_some hmany).trans ?_
    rw [← foldl_parts_eq]
    rfl
  refine ⟨_, e, hresult, ?_⟩
  match found with
  | [] => exact absurd (List.map_eq_nil_iff.1 houtlines.symm) hne
  | p :: found =>
    obtain ⟨hp, hrest⟩ := List.forall_mem_cons.1 hfound
    obtain ⟨hwhole, ho⟩ := outline_foldl_join isUnion rfl (outline_join isUnion hnamed hp) hrest
    refine ⟨hwhole, ?_, he⟩
    rw [List.foldl_cons, ho, ← hflat, ← houtlines]
    simp only [List.map_cons, List.flatMap_cons, List.append_assoc]

/-! ## Types -/

/-- Where no word is next, a union is a type. -/
theorem Reads.type (h : Reads (unionType g) cs k o)
    (hk : (skipSpace k).head?.any isNameStart = false) : Reads (type g) cs k o := by
  intro size i hi
  obtain ⟨n, j, hn, hnamed, ho, hj⟩ := h hi
  refine ⟨n, j, ?_, hnamed, ho, hj⟩
  have hextends : keyword "extends" j = none := by
    refine At.keyword_eq_none ?_
    rw [hj.wordChars_eq_nil hk]
    decide
  rw [Reader.type, bind_of_some hn, bind_of_some (orNone_of_none (bind_of_none hextends))]
  rfl

/-- What is read does not start where nothing is read. -/
theorem Reads.head?_ne (h : Reads r cs k o) (hcs : starts cs = true) {c : Char}
    (hnone : ∀ ⦃size i cs⦄, At size i (c :: cs) → r i = none) : cs.head? ≠ some c := by
  intro hhead
  obtain ⟨size, i, hi⟩ := At.exists_at (cs ++ k)
  obtain ⟨n, j, hn, -⟩ := h hi
  match cs with
  | [] => cases hcs
  | d :: cs =>
    obtain rfl : d = c := Option.some.inj hhead
    rw [hnone hi] at hn
    cases hn

theorem opensType_jointMark (isUnion : Bool) : opensType (jointMark isUnion) = false := by
  cases isUnion <;> decide

/-- Before marks that end an intersection, an operand is read as one. -/
theorem ReadsOperand.intersectionType (h : ReadsOperand g cs k o) (hcs : starts cs = true)
    (hk : Closes [',', ')', '>', '|'] k) : Reads (intersectionType g) cs k o := by
  have harray := h.arrayType (hk.head?_ne (by decide))
  refine harray.single false hcs (harray.head?_ne hcs ?_) (hk.head?_ne (by decide))
  intro size i cs hi
  exact arrayType_eq_none hi (opensType_jointMark false)

theorem intersectionType_eq_none {size : Nat} {i : Input}
    (h : At size i (jointMark true :: cs)) : Reader.intersectionType g i = none :=
  joinedTypes_eq_none (c := '&') h rfl (head?_cons_ne (by decide) cs)
    (arrayType_eq_none h (opensType_jointMark true))

/-- Before marks that end a type, an operand is read as one. -/
theorem ReadsOperand.type (h : ReadsOperand g cs k o) (hcs : starts cs = true)
    (hk : Closes [',', ')', '>'] k) : Reads (type g) cs k o := by
  have hintersection := h.intersectionType hcs (hk.mono (by decide))
  have hmark := hintersection.head?_ne hcs fun _ _ _ hi => intersectionType_eq_none hi
  exact (hintersection.single true hcs hmark (hk.head?_ne (by decide))).type
    (hk.mono (by decide)).not_startsName

end Reader

end StableProps

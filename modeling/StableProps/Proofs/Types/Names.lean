import StableProps.Proofs.Types.Grammar

/-!
# Names and words in types

A name is read as a reference, whatever stands behind it, unless the grammar of types gives a
meaning of its own to its first word. Types in angle brackets behind it are its arguments. The
words of the predefined types are read as such, and so are those of the two empty values.
-/

namespace StableProps.Reader

variable {g : Grammar} {r : Reader Node} {w cs k : List Char} {o : TypeExpr} {size : Nat}
  {i : Input}

/-! ## Words -/

/-- The first character of a word starts a name. -/
theorem exists_cons_of_isWord (h : isWord w = true) :
    ∃ c ws, w = c :: ws ∧ isNameStart c = true := by
  cases w with
  | nil => cases h
  | cons c ws => exact ⟨c, ws, rfl, (Bool.and_eq_true_iff.1 h).1⟩

private theorem not_mem_of_isNameStart {c : Char} (h : isNameStart c = true) {ds : List Char}
    (hds : ds.all (!isNameStart ·) = true) : c ∉ ds := by
  intro hc
  have hnot := List.all_eq_true.1 hds c hc
  rw [h] at hnot
  cases hnot

/-- A word does not start with a character that starts no name. -/
theorem head?_append_ne_of_isWord (h : isWord w = true) {d : Char} (hd : isNameStart d = false)
    (k : List Char) : (w ++ k).head? ≠ some d := by
  obtain ⟨c, ws, rfl, hc⟩ := exists_cons_of_isWord h
  rintro ⟨⟩
  rw [hc] at hd
  cases hd

theorem starts_of_isWord (h : isWord w = true) : starts w = true := by
  obtain ⟨c, ws, rfl, hc⟩ := exists_cons_of_isWord h
  have hpunctuation : isPunctuation c = false := by
    rw [isNameStart, Bool.and_eq_true, Bool.not_eq_true'] at hc
    exact hc.1
  have hslash : c ≠ '/' := by
    rintro rfl
    exact absurd hc (by decide)
  have hblank : isBlank c = false := by
    rw [isPunctuation, Bool.or_eq_false_iff] at hpunctuation
    exact hpunctuation.2
  simp [starts, hblank, hslash]

private theorem isDigit_of_isNameStart {c : Char} (h : isNameStart c = true) :
    c.isDigit = false := by
  rw [isNameStart, Bool.and_eq_true, Bool.not_eq_true', Bool.not_eq_true'] at h
  exact h.2

/-- Where a word is next that does not start a type of its own form, the grammar reads it as a word
with a fixed meaning, a literal or a name. -/
theorem primaryType_of_isWord (h : At size i (w ++ k)) (hw : isWord w = true)
    (hk : endsName k = true) (hword : String.ofList w ∉ typeWords) :
    primaryType g i = plainType g (String.ofList w) i := by
  have hi : i.word = String.ofList w := by rw [Input.word, h.wordChars_eq hw hk]
  obtain ⟨c, ws, rfl, hc⟩ := exists_cons_of_isWord hw
  rw [primaryType_of_word h ?_ (hi ▸ hword), hi]
  rintro d ⟨⟩
  exact not_mem_of_isNameStart hc (by decide)

/-- A word that is no literal does not start one. -/
theorem literalType_eq_none_of_isWord (h : At size i (w ++ k)) (hw : isWord w = true)
    (hk : endsName k = true) (hword : String.ofList w ∉ literalWords) :
    literalType i = none := by
  have hi : i.word = String.ofList w := by rw [Input.word, h.wordChars_eq hw hk]
  obtain ⟨c, ws, rfl, hc⟩ := exists_cons_of_isWord hw
  refine literalType_eq_none h ?_ (isDigit_of_isNameStart hc) (hi ▸ hword)
  rintro d ⟨⟩
  exact not_mem_of_isNameStart hc (by decide)

/-- The words of predefined types are read as such. -/
theorem reads_of_mem_predefinedTypes {word : String} (hword : word ∈ predefinedTypes)
    (hk : Closes closers k) : Reads (primaryType g) word.toList k (.keyword "") := by
  have hall : ∀ word ∈ predefinedTypes, isWord word.toList = true ∧ word ∉ typeWords := by
    decide
  obtain ⟨hw, hown⟩ := hall word hword
  intro size i hi
  obtain ⟨t, j, ht, -, hj⟩ := At.token hi hk.opens
  refine ⟨branch .predefinedType [t], j, ?_, rfl, rfl, hj⟩
  have hi' : i.word = word := by
    rw [Input.word, hi.wordChars_eq hw hk.endsName, String.ofList_toList]
  rw [primaryType_of_isWord hi hw hk.endsName (by rwa [String.ofList_toList]),
    String.ofList_toList, plainType, if_pos (by simpa using hword)]
  refine map_of_some ?_
  rw [keyword, hi', if_pos (beq_self_eq_true _), ht]

/-- The two empty values are read as words. -/
theorem reads_of_emptyValue {word : String} (hword : word ∈ ["null", "undefined"])
    (hk : Closes closers k) : Reads (primaryType g) word.toList k (.keyword "") := by
  have hall : ∀ word ∈ ["null", "undefined"], isWord word.toList = true ∧ word ∉ typeWords ∧
      word ∉ predefinedTypes ∧ word ≠ "true" ∧ word ≠ "false" := by decide
  obtain ⟨hw, hown, hpredefined, htrue, hfalse⟩ := hall word hword
  intro size i hi
  have hi' : i.word = word := by
    rw [Input.word, hi.wordChars_eq hw hk.endsName, String.ofList_toList]
  have hliteral : ∃ n j, literalType.literal i = some (n, j) ∧
      (n.is .nullLiteral = true ∨ n.is .undefinedKeyword = true) ∧ At size j (skipSpace k) := by
    have hconstant : ∀ kind, ∃ n j, literalType.constant word kind i = some (n, j) ∧
        n.is kind = true ∧ At size j (skipSpace k) := by
      intro kind
      rw [literalType.constant, whenInput, if_pos (by simp [hi'])]
      exact At.nameLeaf hi hw hk.endsName hk.opens kind
    obtain ⟨c, ws, hcons, hc⟩ := exists_cons_of_isWord hw
    have hdigit : (word.toList ++ k).head?.any Char.isDigit = false := by
      rw [hcons]
      exact isDigit_of_isNameStart hc
    have hmark : ∀ c ∈ (word.toList ++ k).head?, c ∉ literalMarks := by
      rw [hcons]
      rintro d ⟨⟩
      exact not_mem_of_isNameStart hc (by decide)
    rw [literal_eq_constant hi hmark hdigit, orElse_of_none (constant_eq_none (by rwa [hi']) _),
      orElse_of_none (constant_eq_none (by rwa [hi']) _)]
    rcases List.mem_pair.1 hword with rfl | rfl
    · obtain ⟨n, j, hn, hkind, hj⟩ := hconstant .nullLiteral
      exact ⟨n, j, orElse_of_some hn, .inl hkind, hj⟩
    · obtain ⟨n, j, hn, hkind, hj⟩ := hconstant .undefinedKeyword
      rw [orElse_of_none (constant_eq_none (by rw [hi']; decide) _)]
      exact ⟨n, j, hn, .inr hkind, hj⟩
  obtain ⟨n, j, hn, hkind, hj⟩ := hliteral
  refine ⟨branch .literalType [n], j, ?_, rfl, ?_, hj⟩
  · rw [primaryType_of_isWord hi hw hk.endsName (by rwa [String.ofList_toList]),
      String.ofList_toList, plainType, if_neg (by simpa using hpredefined)]
    exact orElse_of_some (map_of_some hn)
  · exact Node.outline_emptyValue hkind

/-! ## Names -/

/-- The parts of a name behind its first word. -/
def dotted (ws : List (List Char)) : List Char := ws.flatMap ('.' :: ·)

/-- Words that are no name where a type or a parameter can start. -/
def contextWords : List String :=
  reservedWords ++ typeWords ++ predefinedTypes ++ literalWords ++
    ["public", "private", "protected", "override"]

/-- Characters that are the name of a type, which may be qualified. -/
def IsTypeName (cs : List Char) : Prop :=
  ∃ w ws, cs = w ++ dotted ws ∧ isWord w = true ∧ String.ofList w ∉ contextWords ∧
    ∀ v ∈ ws, isWord v = true

/-- Whether a node is a name, qualified or not. -/
def isTypeName (n : Node) : Prop := n.is .typeIdentifier = true ∨ n.is .nestedTypeIdentifier = true

/-- What closes does so behind dotted names. -/
theorem Closes.dotted (hk : Closes closers k) (ws : List (List Char)) :
    Closes closers (dotted ws ++ k) := by
  cases ws with
  | nil => exact hk
  | cons v ws =>
    rintro c ⟨⟩
    decide

theorem skipSpace_dotted_cons (v : List Char) (ws : List (List Char)) (k : List Char) :
    skipSpace (dotted (v :: ws) ++ k) = '.' :: (v ++ (dotted ws ++ k)) := by
  rw [dotted, List.flatMap_cons, List.append_assoc]
  rfl

/-- Dots and words behind a first word are read as parts of a name. -/
theorem steps_of_dotted {ws : List (List Char)} (hws : ∀ v ∈ ws, isWord v = true)
    (hk : Closes closers k) (h : At size i (skipSpace (dotted ws ++ k))) :
    ∃ parts j, Steps (do
        let dot ← tokenUnless "." ['.']
        let part ← nameLeaf .propertyIdentifier
        return [dot, part]) i parts j ∧ At size j (skipSpace k) := by
  induction ws generalizing i with
  | nil => exact ⟨[], i, .refl, h⟩
  | cons v ws ih =>
    obtain ⟨hv, hrest⟩ := List.forall_mem_cons.1 hws
    rw [skipSpace_dotted_cons] at h
    have hfollow :
        ((v ++ (Reader.dotted ws ++ k)).head?.map ['.'].contains).getD false = false := by
      obtain ⟨c, v, rfl, hc⟩ := exists_cons_of_isWord hv
      have hdot : c ∉ ['.'] := not_mem_of_isNameStart hc (by decide)
      simpa using hdot
    have hspace := skipSpace_append_of_starts (starts_of_isWord hv) (Reader.dotted ws ++ k)
    obtain ⟨dot, j, hdot, -, hj⟩ :=
      At.tokenUnless (s := ".") (k := v ++ (Reader.dotted ws ++ k)) h
        (by rw [hspace]; exact opens_append_of_starts (starts_of_isWord hv) _) hfollow
    rw [hspace] at hj
    have hk' := hk.dotted ws
    obtain ⟨part, l, hpart, -, hl⟩ := hj.nameLeaf hv hk'.endsName hk'.opens .propertyIdentifier
    obtain ⟨parts, e, hsteps, he⟩ := ih hrest hl
    refine ⟨[dot, part] ++ parts, e, .head ?_ (h.before hl ?_) hsteps, he⟩
    · rw [bind_of_some hdot, bind_of_some hpart]
      rfl
    · have hle := utf8Len_skipSpace_le (Reader.dotted ws ++ k)
      have hpos := Char.utf8Size_pos '.'
      simp only [String.utf8Len_cons, String.utf8Len_append] at hle ⊢
      omega

/-- Parts are nested into one name. -/
theorem isTypeName_nest (qualifier whole : Node) (parts : List Node) (h : isTypeName whole) :
    isTypeName (typeReference.nest qualifier whole parts) := by
  fun_induction typeReference.nest qualifier whole parts with
  | case1 qualifier whole dot part rest nested ih => exact ih (.inr rfl)
  | case2 qualifier whole parts => exact h

/-- A name is read as a reference with the arguments behind it, if there are any. -/
theorem primaryType_of_isTypeName (hcs : IsTypeName cs) (hk : Closes closers k)
    (hdot : (skipSpace k).head? ≠ some '.') (h : At size i (cs ++ k)) :
    ∃ name j, isTypeName name ∧ At size j (skipSpace k) ∧ primaryType g i =
      (do
        let arguments ← atMostOne (inField .typeArguments <$>
          whenInput (fun i => !i.newline) (typeArguments g))
        match arguments with
        | [] => return name
        | _ => return branch .genericType (inField .name name :: arguments)) j := by
  obtain ⟨w, ws, rfl, hw, hcontext, hws⟩ := hcs
  rw [List.append_assoc] at h
  have hk' := hk.dotted ws
  have hwords : ∀ words : List String, (∀ word ∈ words, word ∈ contextWords) →
      String.ofList w ∉ words := fun words hsub hmem => hcontext (hsub _ hmem)
  obtain ⟨first, j, hfirst, hkind, hj⟩ := h.nameLeaf hw hk'.endsName hk'.opens .typeIdentifier
  obtain ⟨parts, l, hsteps, hl⟩ := steps_of_dotted hws hk hj
  refine ⟨_, l, isTypeName_nest { first with label := .rule .identifier } first parts (.inl hkind),
    hl, ?_⟩
  have hend : (do
      let dot ← tokenUnless "." ['.']
      let part ← nameLeaf .propertyIdentifier
      return [dot, part] : Reader (List Node)) l = none :=
    bind_of_none (hl.tokenUnless_eq_none rfl hdot)
  have hqualify : typeReference.qualify first j = some
      (typeReference.nest { first with label := .rule .identifier } first parts, l) := by
    rw [typeReference.qualify, bind_of_some (many_of_steps hsteps hend hl.offset_le_size)]
    rfl
  have hreserved : ¬reservedWords.contains i.word = true := by
    rw [Input.word, h.wordChars_eq hw hk'.endsName]
    simpa using hwords reservedWords (by decide)
  rw [primaryType_of_isWord h hw hk'.endsName (hwords _ (by decide)), plainType,
    if_neg (by simpa using hwords predefinedTypes (by decide)),
    orElse_of_none (literalType_eq_none_of_isWord h hw hk'.endsName (hwords _ (by decide))),
    typeReference, get_bind, if_neg hreserved]
  exact (bind_of_some hfirst).trans (bind_of_some hqualify)

/-- A name before other marks than those of arguments is read as a reference. -/
theorem reads_of_isTypeName (hcs : IsTypeName cs)
    (hk : Closes [',', ')', '>', '|', '&', '['] k) :
    Reads (primaryType g) cs k (.reference "" "" [] none) := by
  intro size i hi
  obtain ⟨name, j, hname, hj, hread⟩ :=
    primaryType_of_isTypeName (g := g) hcs (hk.mono (by decide)) (hk.head?_ne (by decide)) hi
  have harguments : whenInput (fun i => !i.newline) (typeArguments g) j = none := by
    rw [whenInput, hj.sameLine, Bool.not_false, if_pos rfl, typeArguments,
      bind_of_none (hj.token_eq_none (p := '<') rfl (hk.head?_ne (by decide)))]
  refine ⟨name, j, ?_, ?_, Node.outline_of_isName hname, hj⟩
  · rw [hread, bind_of_some (atMostOne_of_none (map_of_none harguments))]
    rfl
  · exact hname.elim Node.isNamed_of_is Node.isNamed_of_is

/-- What stands between arguments. -/
def argumentSeparator : List Char := [',', ' ']

private theorem readsMark_comma : ReadsMark (token ",") argumentSeparator ',' where
  separator _ := rfl
  some _ _ cs h hcs := At.token (s := ",") (k := ' ' :: cs) h hcs
  none _ _ _ h hne := h.token_eq_none rfl hne

/-- Texts in angle brackets are read as arguments. -/
theorem typeArguments_of_readsEach {ps : List (List Char × TypeExpr)}
    (hfirst : Reads g.type cs (separated argumentSeparator ps ++ '>' :: k) o)
    (hcs : starts cs = true) (hps : ReadsEach g.type argumentSeparator ('>' :: k) ps)
    (hk : opens (skipSpace k) = true)
    (h : At size i ('<' :: (cs ++ (separated argumentSeparator ps ++ '>' :: k)))) :
    ∃ nodes j, typeArguments g i = some (branch .typeArguments nodes, j) ∧
      (nodes.filter Node.isNamed).map Node.outline = o :: ps.map (·.2) ∧
        At size j (skipSpace k) := by
  have hspace := skipSpace_append_of_starts hcs (separated argumentSeparator ps ++ '>' :: k)
  obtain ⟨opening, j, hopening, hopeningMark, hj⟩ := At.token (s := "<")
    (k := cs ++ (separated argumentSeparator ps ++ '>' :: k)) h
    (by rw [hspace]; exact opens_append_of_starts hcs _)
  rw [hspace] at hj
  obtain ⟨n, l, hn, hnamed, rfl, hl⟩ := hfirst hj
  obtain ⟨found, e, hsteps, hfound, houtlines, he⟩ :=
    hps.steps readsMark_comma (fun t n => [t, n]) hl
  have hcomma : token "," e = none := he.token_eq_none (p := ',') rfl (by simp [skipSpace])
  obtain ⟨closing, f, hclosing, hclosingMark, hf⟩ := At.token (s := ">") he hk
  refine ⟨opening :: (n :: found.flatMap fun p => [p.1, p.2]) ++ [] ++ [closing], f, ?_, ?_, hf⟩
  · have hitems : sepByComma g.type j = some (n :: found.flatMap fun p => [p.1, p.2], e) := by
      rw [sepByComma, bind_of_some hn]
      exact bind_of_some (many_of_steps hsteps (bind_of_none hcomma) he.offset_le_size)
    rw [typeArguments, bind_of_some hopening, bind_of_some hitems,
      bind_of_some (atMostOne_of_none hcomma), bind_of_some hclosing]
    rfl
  · have hpairs : ((found.flatMap fun p => [p.1, p.2]).filter Node.isNamed).map Node.outline =
        found.map (·.2.outline) := by
      clear hsteps houtlines
      induction found with
      | nil => rfl
      | cons p found ih =>
        obtain ⟨hp, hrest⟩ := List.forall_mem_cons.1 hfound
        simp [hp, ih hrest]
    simp [hopeningMark, hclosingMark, hnamed, hpairs, houtlines]

/-- A name with arguments is read as a reference with what they are read for. -/
theorem reads_generic {ps : List (List Char × TypeExpr)} {name : List Char}
    (hname : IsTypeName name)
    (hfirst : Reads g.type cs (separated argumentSeparator ps ++ '>' :: k) o)
    (hcs : starts cs = true) (hps : ReadsEach g.type argumentSeparator ('>' :: k) ps)
    (hk : opens (skipSpace k) = true) :
    Reads (primaryType g) (name ++ '<' :: (cs ++ (separated argumentSeparator ps ++ ['>']))) k
      (.reference "" "" (o :: ps.map (·.2)) none) := by
  intro size i hi
  have htext : name ++ '<' :: (cs ++ (separated argumentSeparator ps ++ ['>'])) ++ k =
      name ++ '<' :: (cs ++ (separated argumentSeparator ps ++ '>' :: k)) := by simp
  rw [htext] at hi
  have hopen : Closes closers ('<' :: (cs ++ (separated argumentSeparator ps ++ '>' :: k))) := by
    rintro c ⟨⟩
    decide
  obtain ⟨node, j, -, hj, hread⟩ :=
    primaryType_of_isTypeName (g := g) hname hopen (by simp [skipSpace]) hi
  obtain ⟨nodes, l, harguments, houtlines, hl⟩ :=
    typeArguments_of_readsEach hfirst hcs hps hk hj
  refine ⟨branch .genericType [inField .name node,
    inField .typeArguments (branch .typeArguments nodes)], l, ?_, rfl, ?_, hl⟩
  · have hwhen : whenInput (fun i => !i.newline) (typeArguments g) j =
        some (branch .typeArguments nodes, l) := by
      rw [whenInput, hj.sameLine, Bool.not_false, if_pos rfl, harguments]
    rw [hread, bind_of_some (atMostOne_of_some (map_of_some hwhen))]
    rfl
  · rw [Node.outline_genericType, houtlines]

end StableProps.Reader

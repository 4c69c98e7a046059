import StableProps.Proofs.Types.Names
import StableProps.Syntax.Parse

/-!
# Parentheses that hold no parameters

A parenthesis may open a parameter list, and this is tried before it is read as one around a type.
A name, a word or a group in parentheses that opens a union or intersection is no parameter list:
reading parameters gets stuck at the first mark between members, before any closing parenthesis.
-/

namespace StableProps.Reader

variable {g : Grammar} {w cs k : List Char} {size m : Nat} {i : Input}

/-! ## Patterns -/

/-- What declares variables starts with a name or one of two marks. -/
theorem binding_eq_none (h : At size i cs) (hname : cs.head?.any isNameStart = false)
    (hmark : ∀ c ∈ cs.head?, c ∉ ['\x7b', '[']) : binding g i = none := by
  have hne : ∀ c ∈ ['\x7b', '['], cs.head? ≠ some c := fun c hc hhead => hmark c hhead hc
  rw [binding, orElse_of_none, orElse_of_none, identifier, h.nameLeaf_eq_none hname, ite_self]
  · rw [arrayPattern, enclosed, bind_of_none (h.token_eq_none rfl (hne '[' (by decide)))]
  · rw [objectPattern, enclosed, bind_of_none (h.token_eq_none rfl (hne '\x7b' (by decide)))]

/-- Without a name or a bracket there is no binding. -/
private theorem level_binding_eq_none (h : At size i cs) (hname : cs.head?.any isNameStart = false)
    (hmark : ∀ c ∈ cs.head?, c ∉ ['\x7b', '[']) : (Grammar.level m).binding i = none := by
  cases m with
  | zero => rfl
  | succ m => exact binding_eq_none h hname hmark

/-- On no level a type is read at a closing bracket. -/
theorem stopsAtBracket_level (m : Nat) : StopsAtBracket (Grammar.level m) := by
  intro size i cs h
  cases m with
  | zero => rfl
  | succ m => exact type_eq_none h (by decide) (by decide) (by decide)

/-- A word is bound as an identifier. -/
private theorem binding_eq_identifier (h : At size i (w ++ k)) (hw : isWord w = true) :
    binding g i = identifier i := by
  have hbracket : (w ++ k).head? ≠ some '[' := head?_append_ne_of_isWord hw (by decide) k
  have hbrace : (w ++ k).head? ≠ some '\x7b' := head?_append_ne_of_isWord hw (by decide) k
  rw [binding, orElse_of_none, orElse_of_none]
  · rw [arrayPattern, enclosed, bind_of_none (h.token_eq_none rfl hbracket)]
  · rw [objectPattern, enclosed, bind_of_none (h.token_eq_none rfl hbrace)]

/-- Empty brackets are a pattern. -/
theorem binding_of_brackets (h : At size i ('[' :: ']' :: k)) (hk : opens (skipSpace k) = true) :
    ∃ n j, binding (Grammar.level m) i = some (n, j) ∧ At size j (skipSpace k) := by
  obtain ⟨opening, j, hopening, -, hj⟩ := At.token (s := "[") (k := ']' :: k) h rfl
  obtain ⟨closing, l, hclosing, -, hl⟩ := At.token (s := "]") hj hk
  have hmark : ∀ c ∈ (skipSpace (']' :: k)).head?, c ∉ ['\x7b', '['] := by
    rintro c ⟨⟩
    decide
  have hinside : (restOf (Grammar.level m).binding <|>
      patternWithDefault (Grammar.level m) (Grammar.level m).binding) j = none := by
    rw [orElse_of_none, patternWithDefault, bind_of_none (level_binding_eq_none hj rfl hmark)]
    rw [restOf, bind_of_none (hj.token_eq_none (p := '.') rfl (by simp [skipSpace]))]
  have hitem : commaSeparated (restOf (Grammar.level m).binding <|>
      patternWithDefault (Grammar.level m) (Grammar.level m).binding) j = some ([], j) := by
    rw [commaSeparated]
    refine many_of_none ?_
    rw [bind_of_some (atMostOne_of_none
      (hj.tokenUnless_eq_none (p := ',') rfl (by simp [skipSpace])))]
    exact map_of_none hinside
  refine ⟨branch .arrayPattern (opening :: [] ++ [closing]), l, ?_, hl⟩
  rw [binding, orElse_of_none]
  · refine orElse_of_some ?_
    rw [arrayPattern, enclosed, bind_of_some hopening, bind_of_some hitem, bind_of_some hclosing]
    rfl
  · rw [objectPattern, enclosed, bind_of_none (h.token_eq_none (p := '\x7b') rfl (by simp))]

/-! ## Parameters -/

/-- Words that mean something of their own where a parameter starts. -/
def parameterWords : List String :=
  ["public", "private", "protected", "override", "readonly", "this"]

/-- A word that is no modifier is not taken for one. -/
private theorem modifier_eq_none {words : List String} (h : i.word ∉ words) :
    modifier words i = none := by
  have hnot : i.isModifier words = false := by
    rw [Input.isModifier, Bool.and_eq_false_iff]
    exact .inl (by simpa using h)
  rw [modifier, get_bind, hnot]
  rfl

/-- Without a mark and a word of its own a parameter starts with its pattern. -/
theorem typedParameter_eq (h : At size i cs) (hat : cs.head? ≠ some '@')
    (hdots : dropLead? "...".toList cs = none) (hword : i.word ∉ parameterWords) :
    typedParameter g i = (do
      let pattern ← g.binding
      let mark ← atMostOne (tokenUnless "?" ['.', '?'])
      let type ← atMostOne (inField .type <$> annotatedType g)
      let value ← orNone (initializer g)
      let kind : Kind := if mark.isEmpty then .requiredParameter else .optionalParameter
      return branch kind ([] ++ [] ++ inField .pattern pattern :: mark ++ type ++ value)) i := by
  have hdecorators : many ((fun n => [inField .decorator n]) <$> decorator g) i = some ([], i) := by
    refine many_of_none (map_of_none ?_)
    rw [decorator, bind_of_none (h.token_eq_none rfl hat)]
  have hmodifiers : many ((fun n => [n]) <$>
      modifier ["public", "private", "protected", "override", "readonly"]) i = some ([], i) :=
    many_of_none (map_of_none (modifier_eq_none fun hmem => hword (by simp_all [parameterWords])))
  have hrest : typedParameter.restPattern g i = none := by
    have hraw : rawToken "..." i = none := by simp only [rawToken, h.rest, hdots]
    rw [typedParameter.restPattern, bind_of_none]
    rw [token, bind_of_none hraw]
  have hthis : typePredicate.thisLeaf i = none := by
    rw [typePredicate.thisLeaf, whenInput, if_neg]
    intro heq
    exact hword (by simp [eq_of_beq heq, parameterWords])
  rw [typedParameter, bind_of_some hdecorators, bind_of_some hmodifiers]
  have hpattern : (typedParameter.restPattern g <|> typePredicate.thisLeaf <|> g.binding) i =
      g.binding i := by
    rw [orElse_of_none hrest, orElse_of_none hthis]
  cases hb : g.binding i with
  | none => rw [bind_of_none (hpattern.trans hb), bind_of_none hb]
  | some x => rw [bind_of_some (hpattern.trans hb), bind_of_some hb]

/-- Before a mark that ends a type, a pattern is a parameter. -/
theorem typedParameter_of_binding (h : At size i cs) (hat : cs.head? ≠ some '@')
    (hdots : dropLead? "...".toList cs = none) (hword : i.word ∉ parameterWords) {n : Node}
    {j : Input} (hn : g.binding i = some (n, j)) (hk : Closes closers k)
    (hj : At size j (skipSpace k)) : ∃ p, typedParameter g i = some (p, j) := by
  have hmark : tokenUnless "?" ['.', '?'] j = none :=
    hj.tokenUnless_eq_none rfl (hk.head?_ne (c := '?') (by decide))
  have htype : annotatedType g j = none := by
    rw [annotatedType, bind_of_none (hj.token_eq_none rfl (hk.head?_ne (c := ':') (by decide)))]
  have hvalue : initializer g j = none := by
    rw [initializer, bind_of_none
      (hj.tokenUnless_eq_none rfl (hk.head?_ne (c := '=') (by decide)))]
  have hread := typedParameter_eq (g := g) h hat hdots hword
  rw [bind_of_some hn, bind_of_some (atMostOne_of_none hmark),
    bind_of_some (atMostOne_of_none (map_of_none htype)), bind_of_some (orNone_of_none hvalue)]
    at hread
  exact ⟨_, hread⟩

/-- A parameter in a list: a comma or the parameter itself. -/
def listedParameter (g : Grammar) : Reader (List Node) :=
  atMostOne (tokenUnless "," []) >>= fun
    | [] => (fun n => [n]) <$> typedParameter g
    | comma => pure comma

/-- Reading parameters from here on does not come to a closing parenthesis. -/
def Stuck (g : Grammar) (cs : List Char) : Prop :=
  ∀ ⦃size i⦄, At size i cs → ∃ nodes j, Steps (listedParameter g) i nodes j ∧
    listedParameter g j = none ∧ token ")" j = none ∧ j.offset ≤ j.size

/-- A parameter that does not stand there is not listed. -/
private theorem listedParameter_of_none (h : At size i cs) (hcomma : cs.head? ≠ some ',')
    (hparameter : typedParameter g i = none) : listedParameter g i = none := by
  rw [listedParameter, bind_of_some (atMostOne_of_none (h.tokenUnless_eq_none rfl hcomma))]
  exact map_of_none hparameter

/-- A parameter that stands there is listed. -/
private theorem listedParameter_of_some (h : At size i cs) (hcomma : cs.head? ≠ some ',') {n : Node}
    {j : Input} (hparameter : typedParameter g i = some (n, j)) :
    listedParameter g i = some ([n], j) := by
  rw [listedParameter, bind_of_some (atMostOne_of_none (h.tokenUnless_eq_none rfl hcomma))]
  exact map_of_some hparameter

/-- Where reading parameters gets stuck no parameter list is read. -/
theorem Stuck.formalParameters_eq_none (h : Stuck g cs) (hcs : starts cs = true)
    (hi : At size i ('(' :: cs)) : formalParameters g i = none := by
  have hspace : skipSpace cs = cs := by
    have happend := skipSpace_append_of_starts hcs []
    rwa [List.append_nil] at happend
  have hopen : opens (skipSpace cs) = true := by
    have happend := opens_append_of_starts hcs []
    rwa [hspace, ← List.append_nil cs]
  obtain ⟨opening, j, hopening, -, hj⟩ := At.token (s := "(") (k := cs) hi hopen
  rw [hspace] at hj
  obtain ⟨nodes, l, hsteps, hend, hclosing, hl⟩ := h hj
  rw [formalParameters, get_bind, hi.typed, if_pos rfl, enclosed, bind_of_some hopening]
  have hitems : commaSeparated (typedParameter g) j = some (nodes, l) :=
    many_of_steps hsteps hend hl
  rw [bind_of_some hitems, bind_of_none hclosing]

/-! ## Where parameters get stuck -/

/-- Marks that neither a parameter nor the end of a list starts with. -/
def stuckMarks : List Char := ['|', '&', '<', '(', doubleQuote, singleQuote]

/-- No parameter is read where none starts. -/
private theorem stuck_of_none (hcomma : cs.head? ≠ some ',') (hclosing : cs.head? ≠ some ')')
    (h : ∀ ⦃size i⦄, At size i cs → typedParameter g i = none) : Stuck g cs := by
  intro size i hi
  exact ⟨[], i, .refl, listedParameter_of_none hi hcomma (h hi), hi.token_eq_none rfl hclosing,
    hi.offset_le_size⟩

/-- No parameter starts with a mark that opens no pattern. -/
theorem stuck_of_not_starts {c : Char} (hname : isNameStart c = false)
    (hc : c ∉ ['@', ',', ')', '\x7b', '['])
    (hdots : dropLead? "...".toList (c :: cs) = none) : Stuck (Grammar.level m) (c :: cs) := by
  have hne : ∀ d ∈ ['@', ',', ')', '\x7b', '['], (c :: cs).head? ≠ some d := by
    rintro d hd ⟨⟩
    exact hc hd
  refine stuck_of_none (hne ',' (by decide)) (hne ')' (by decide)) fun size i hi => ?_
  have hword : i.word ∉ parameterWords := by
    rw [Input.word, hi.wordChars_eq_nil hname]
    decide
  rw [typedParameter_eq hi (hne '@' (by decide)) hdots hword]
  refine bind_of_none (level_binding_eq_none hi hname ?_)
  rintro d ⟨⟩ hd
  exact hc (List.mem_append_right ['@', ',', ')'] hd)

theorem stuck_of_mem_stuckMarks {c : Char} (hc : c ∈ stuckMarks) (cs : List Char) :
    Stuck (Grammar.level m) (c :: cs) := by
  have hall : stuckMarks.all (fun c =>
      !(isNameStart c || ['@', ',', ')', '\x7b', '[', '.'].contains c)) = true := by decide
  obtain ⟨hname, hmark⟩ : isNameStart c = false ∧ c ∉ ['@', ',', ')', '\x7b', '[', '.'] := by
    simpa using List.all_eq_true.1 hall c hc
  refine stuck_of_not_starts hname (fun h => hmark (List.mem_append_left ['.'] h)) ?_
  have hdot : c ≠ '.' := by
    rintro rfl
    exact hmark (by decide)
  exact At.dropLead?_eq_none (p := '.') (by simpa using hdot) ['.', '.']

/-- A part of a qualified name is no parameter. -/
theorem stuck_of_dot (hw : isWord w = true) : Stuck (Grammar.level m) ('.' :: (w ++ cs)) := by
  obtain ⟨c, ws, rfl, hc⟩ := exists_cons_of_isWord hw
  have hdot : c ≠ '.' := by
    rintro rfl
    exact absurd hc (by decide)
  refine stuck_of_not_starts (by decide) (by decide) ?_
  exact At.dropLead?_eq_none (p := '.') (by simpa using hdot) ['.']

/-- What gets stuck behind a word gets stuck with it. -/
theorem Stuck.word (h : Stuck (Grammar.level (m + 1)) (skipSpace k)) (hk : Closes closers k)
    (hw : isWord w = true) (hword : String.ofList w ∉ parameterWords) :
    Stuck (Grammar.level (m + 1)) (w ++ k) := by
  have hne : ∀ d, isNameStart d = false → (w ++ k).head? ≠ some d :=
    fun d hd => head?_append_ne_of_isWord hw hd k
  have hdots : dropLead? "...".toList (w ++ k) = none :=
    At.dropLead?_eq_none (hne '.' (by decide)) ['.', '.']
  have hat := hne '@' (by decide)
  have hcomma := hne ',' (by decide)
  intro size i hi
  have hi' : i.word = String.ofList w := by rw [Input.word, hi.wordChars_eq hw hk.endsName]
  have hbinding : (Grammar.level (m + 1)).binding i = identifier i := binding_eq_identifier hi hw
  rw [identifier, hi'] at hbinding
  split at hbinding
  · -- a reserved word is no pattern, so no parameter starts here at all
    have hparameter : typedParameter (Grammar.level (m + 1)) i = none := by
      rw [typedParameter_eq hi hat hdots (hi' ▸ hword), bind_of_none hbinding]
    exact ⟨[], i, .refl, listedParameter_of_none hi hcomma hparameter,
      hi.token_eq_none rfl (hne ')' (by decide)), hi.offset_le_size⟩
  · obtain ⟨n, j, hn, -, hj⟩ := hi.nameLeaf hw hk.endsName hk.opens .identifier
    obtain ⟨p, hp⟩ :=
      typedParameter_of_binding hi hat hdots (hi' ▸ hword) (hbinding.trans hn) hk hj
    obtain ⟨nodes, l, hsteps, hend⟩ := h hj
    refine ⟨[p] ++ nodes, l, .head (listedParameter_of_some hi hcomma hp) (hi.before hj ?_) hsteps,
      hend⟩
    obtain ⟨c, ws, rfl, -⟩ := exists_cons_of_isWord hw
    have hle := utf8Len_skipSpace_le k
    have hpos := Char.utf8Size_pos c
    simp only [String.utf8Len_append, String.utf8Len_cons]
    omega

/-- What gets stuck behind empty brackets gets stuck with them. -/
theorem Stuck.brackets (h : Stuck (Grammar.level (m + 1)) (skipSpace k)) (hk : Closes closers k) :
    Stuck (Grammar.level (m + 1)) ('[' :: ']' :: k) := by
  intro size i hi
  obtain ⟨n, j, hn, hj⟩ := binding_of_brackets (m := m) hi hk.opens
  have hword : i.word ∉ parameterWords := by
    rw [Input.word, hi.wordChars_eq_nil rfl]
    decide
  obtain ⟨p, hp⟩ := typedParameter_of_binding (g := Grammar.level (m + 1)) hi (by simp)
    (At.dropLead?_eq_none (p := '.') (by simp) ['.', '.']) hword hn hk hj
  obtain ⟨nodes, l, hsteps, hend⟩ := h hj
  refine ⟨[p] ++ nodes, l, .head (listedParameter_of_some hi (by simp) hp) (hi.before hj ?_) hsteps,
    hend⟩
  have hle := utf8Len_skipSpace_le k
  have hpos := Char.utf8Size_pos '['
  simp only [String.utf8Len_cons]
  omega

/-- What gets stuck behind a name gets stuck with it. -/
theorem Stuck.isTypeName (h : Stuck (Grammar.level (m + 1)) (skipSpace k)) (hk : Closes closers k)
    (hcs : IsTypeName cs) : Stuck (Grammar.level (m + 1)) (cs ++ k) := by
  obtain ⟨w, ws, rfl, hw, hcontext, hws⟩ := hcs
  have hsub : ∀ word ∈ parameterWords, word ∈ contextWords := by decide
  have hword : String.ofList w ∉ parameterWords := fun hmem => hcontext (hsub _ hmem)
  rw [List.append_assoc]
  refine Stuck.word ?_ (hk.dotted ws) hw hword
  cases ws with
  | nil => exact h
  | cons v ws =>
    rw [skipSpace_dotted_cons]
    exact stuck_of_dot (hws v List.mem_cons_self)

end StableProps.Reader

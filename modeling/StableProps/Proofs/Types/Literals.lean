import StableProps.Proofs.Types.Parameters

/-!
# String literals in printed types

A string literal ends with its own quotation mark, so it can stand wherever a type is printed.
-/

namespace StableProps

namespace Reader

variable {g : Grammar} {cs k : List Char} {size m : Nat} {i : Input} {q : Char} {s : String}

/-- Plain characters before a quotation mark are read as one piece. -/
theorem steps_of_isPlain (hcs : cs.all (isPlain q) = true) (hslash : q ≠ '\\')
    (h : At size i (cs ++ q :: k)) : ∃ nodes j,
      Steps ((fun n => [n]) <$>
        (runLeaf (.rule .stringFragment) (isPlain q) <|> escapeSequence)) i nodes j ∧
      ((fun n => [n]) <$>
        (runLeaf (.rule .stringFragment) (isPlain q) <|> escapeSequence) : Reader (List Node)) j =
          none ∧ At size j (q :: k) := by
  have hquote : isPlain q q = false := by simp [isPlain]
  have hend : ∀ ⦃j⦄, At size j (q :: k) → ((fun n => [n]) <$>
      (runLeaf (.rule .stringFragment) (isPlain q) <|> escapeSequence) : Reader (List Node)) j =
        none := by
    intro j hj
    refine map_of_none ?_
    rw [orElse_of_none]
    · rw [escapeSequence, hj.rest]
      split
      · next heq => exact absurd (List.cons.inj heq).1 hslash
      · rfl
    · simp [runLeaf, hj.rest, hquote]
  match cs with
  | [] => exact ⟨[], i, .refl, hend h, h⟩
  | c :: cs =>
    have hj := h.after
    have htake : (c :: cs ++ q :: k).takeWhile (isPlain q) = c :: cs := by
      rw [List.takeWhile_append_of_pos (List.all_eq_true.1 hcs),
        List.takeWhile_cons_of_neg (by simp [hquote]), List.append_nil]
    refine ⟨[leaf (.rule .stringFragment) i.offset (i.offset + byteCount (c :: cs))],
      i.after (q :: k) (String.utf8Len (c :: cs)), .one ?_ (h.before hj ?_), hend hj, hj⟩
    · refine map_of_some (orElse_of_some ?_)
      simp only [runLeaf, h.rest, htake, List.drop_left, byteCount_eq]
    · have hpos := Char.utf8Size_pos c
      simp only [String.utf8Len_append, String.utf8Len_cons]
      omega

/-- A string is read up to its closing mark. -/
theorem quotedBy_of_isPlain (hs : s.toList = [q]) (hcs : cs.all (isPlain q) = true)
    (hslash : q ≠ '\\') (h : At size i (q :: (cs ++ q :: k))) : ∃ n j,
      quotedBy s (runLeaf (.rule .stringFragment) (isPlain q) <|> escapeSequence) i = some (n, j) ∧
        n.is .stringLiteral = true ∧ At size j k := by
  have hopening : At size i (s.toList ++ (cs ++ q :: k)) := hs ▸ h
  obtain ⟨nodes, j, hsteps, hend, hj⟩ := steps_of_isPlain hcs hslash hopening.after
  have hclosing : At size j (s.toList ++ k) := hs ▸ hj
  refine ⟨branch .stringLiteral (leaf (.token s) i.offset (i.offset + s.utf8ByteSize) :: nodes ++
    [leaf (.token s) j.offset (j.offset + s.utf8ByteSize)]), _, ?_, rfl, hclosing.after⟩
  have hpieces := many_of_steps hsteps hend hj.offset_le_size
  rw [quotedBy, bind_of_some hopening.rawToken_eq, pieces, bind_of_some hpieces,
    bind_of_some hclosing.rawToken_eq]
  rfl

/-- The quotation marks of strings. -/
def quotes : List Char := [doubleQuote, singleQuote]

/-- A string in quotation marks is read as a literal. -/
theorem stringLiteral_of_isPlain (hq : q ∈ quotes) (hcs : cs.all (isPlain q) = true)
    (hk : opens (skipSpace k) = true) (h : At size i (q :: (cs ++ q :: k))) :
    ∃ n j, stringLiteral i = some (n, j) ∧ n.is .stringLiteral = true ∧
      At size j (skipSpace k) := by
  have hquoted : ∃ n j, (quotedBy "\""
      (runLeaf (.rule .stringFragment) (isPlain doubleQuote) <|> escapeSequence) <|>
      quotedBy "'" (runLeaf (.rule .stringFragment) (isPlain singleQuote) <|> escapeSequence)) i =
        some (n, j) ∧ n.is .stringLiteral = true ∧ At size j k := by
    rcases List.mem_pair.1 hq with rfl | rfl
    · obtain ⟨n, j, hn, hkind, hj⟩ :=
        quotedBy_of_isPlain (q := doubleQuote) (s := "\"") rfl hcs (by decide) h
      exact ⟨n, j, orElse_of_some hn, hkind, hj⟩
    · obtain ⟨n, j, hn, hkind, hj⟩ :=
        quotedBy_of_isPlain (q := singleQuote) (s := "'") rfl hcs (by decide) h
      refine ⟨n, j, ?_, hkind, hj⟩
      rw [orElse_of_none, hn]
      rw [quotedBy, bind_of_none (h.rawToken_eq_none (p := doubleQuote) rfl (by simp; decide))]
  obtain ⟨n, j, hn, hkind, hj⟩ := hquoted
  refine ⟨n, j.settled, ?_, hkind, hj.settled hk⟩
  rw [stringLiteral]
  exact (bind_of_some hn).trans rfl

/-- A text in quotation marks, without escapes. -/
def IsPlainString (cs : List Char) : Prop :=
  ∃ q ∈ quotes, ∃ inside, inside.all (isPlain q) = true ∧ cs = q :: (inside ++ [q])

/-- A string literal is an operand before whatever ends one. -/
theorem reads_stringLiteral (h : IsPlainString cs) (hk : Closes closers k) :
    Reads (primaryType g) cs k (.literal "") := by
  obtain ⟨q, hq, inside, hcs, rfl⟩ := h
  have hall : quotes.all (fun q => !isNameStart q && !typeMarks.contains q) = true := by decide
  obtain ⟨hname, hmark⟩ : isNameStart q = false ∧ q ∉ typeMarks := by
    simpa using List.all_eq_true.1 hall q hq
  intro size i hi
  have hi : At size i (q :: (inside ++ q :: k)) := by simpa using hi
  have hword : i.word = "" := by rw [Input.word, hi.wordChars_eq_nil hname]
  obtain ⟨n, j, hn, hkind, hj⟩ := stringLiteral_of_isPlain hq hcs hk.opens hi
  refine ⟨branch .literalType [n], j, ?_, rfl, Node.outline_stringLiteral hkind, hj⟩
  have hmarks : ∀ c ∈ (q :: (inside ++ q :: k)).head?, c ∉ typeMarks := by
    rintro c ⟨⟩
    exact hmark
  rw [primaryType_of_word hi hmarks (by rw [hword]; decide), hword, plainType, if_neg (by decide)]
  exact orElse_of_some (map_of_some (orElse_of_some hn))

theorem starts_of_isPlainString (h : IsPlainString cs) : starts cs = true := by
  obtain ⟨q, hq, inside, -, rfl⟩ := h
  have hall : quotes.all (fun q => !isBlank q && q != '/') = true := by decide
  exact List.all_eq_true.1 hall q hq

theorem stuck_of_isPlainString (h : IsPlainString cs) (k : List Char) :
    Stuck (Grammar.level m) (cs ++ k) := by
  obtain ⟨q, hq, inside, -, rfl⟩ := h
  exact stuck_of_mem_stuckMarks (List.mem_append_right ['|', '&', '<', '('] hq) _

end Reader

end StableProps

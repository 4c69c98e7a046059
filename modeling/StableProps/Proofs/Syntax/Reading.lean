import Mathlib.Data.String.Basic
import StableProps.Syntax.Reader.Input

/-!
# What readers read

A reader runs over characters, and what it takes is told by the characters alone as long as no
comment and no line break is among the blanks it skips: `At` describes a position by the characters
that follow on it. Each basic reader is described by what it takes from such a position and where
it stops, and a repetition by the steps it takes.
-/

namespace StableProps.Reader

variable {α β : Type}

/-! ## Readers one after the other -/

/-- A reader that succeeds hands over what it took and the place where it stopped. -/
theorem bind_of_some {r : Reader α} {f : α → Reader β} {i j : Input} {a : α}
    (h : r i = some (a, j)) : (r >>= f) i = f a j := by
  simp only [bind, StateT.bind, h, Option.bind_some]

/-- A reader that fails makes the sequence fail. -/
theorem bind_of_none {r : Reader α} {f : α → Reader β} {i : Input} (h : r i = none) :
    (r >>= f) i = none := by
  simp only [bind, StateT.bind, h, Option.bind_none]

theorem get_bind {f : Input → Reader β} {i : Input} : (get >>= f) i = f i i := rfl

/-- What is made of the result does not move the place. -/
theorem map_of_some {r : Reader α} {f : α → β} {i j : Input} {a : α} (h : r i = some (a, j)) :
    (f <$> r) i = some (f a, j) := by
  simp only [Functor.map, StateT.map, h]
  rfl

/-- Nothing is made of a failure. -/
theorem map_of_none {r : Reader α} {f : α → β} {i : Input} (h : r i = none) :
    (f <$> r) i = none := by
  simp only [Functor.map, StateT.map, h]
  rfl

/-- The first alternative is taken if it succeeds. -/
theorem orElse_of_some {r s : Reader α} {i : Input} {x : α × Input} (h : r i = some x) :
    (r <|> s) i = some x := by
  simp only [HOrElse.hOrElse, OrElse.orElse, Alternative.orElse, StateT.orElse, h,
    Option.orElse]

/-- The second alternative starts where the first one failed. -/
theorem orElse_of_none {r s : Reader α} {i : Input} (h : r i = none) : (r <|> s) i = s i := by
  simp only [HOrElse.hOrElse, OrElse.orElse, Alternative.orElse, StateT.orElse, h,
    Option.orElse]

private theorem orNone_of_some {r : Reader (List Node)} {i j : Input} {ns : List Node}
    (h : r i = some (ns, j)) : orNone r i = some (ns, j) := by
  simp only [orNone, h]

/-- An optional part that does not stand there takes nothing. -/
theorem orNone_of_none {r : Reader (List Node)} {i : Input} (h : r i = none) :
    orNone r i = some ([], i) := by
  simp only [orNone, h]

/-- An optional node that stands there is taken. -/
theorem atMostOne_of_some {r : Reader Node} {i j : Input} {n : Node} (h : r i = some (n, j)) :
    atMostOne r i = some ([n], j) :=
  orNone_of_some (map_of_some h)

/-- An optional node that does not stand there takes nothing. -/
theorem atMostOne_of_none {r : Reader Node} {i : Input} (h : r i = none) :
    atMostOne r i = some ([], i) :=
  orNone_of_none (map_of_none h)

/-! ## Repetition -/

/-- A position that is further on in the same source. -/
def Input.Before (i j : Input) : Prop := i.offset < j.offset ∧ i.size = j.size

/-- A reader runs several times in a row, each time coming further. -/
inductive Steps (r : Reader (List Node)) : Input → List Node → Input → Prop
  | refl {i : Input} : Steps r i [] i
  | head {i j k : Input} {ns ms : List Node} (h : r i = some (ns, j)) (hlt : i.Before j)
      (hs : Steps r j ms k) : Steps r i (ns ++ ms) k

private theorem Steps.offset_le {r : Reader (List Node)} {i j : Input} {ns : List Node}
    (h : Steps r i ns j) : i.offset ≤ j.offset := by
  induction h with
  | refl => exact Nat.le_refl _
  | head _ hlt _ ih => exact Nat.le_trans (Nat.le_of_lt hlt.1) ih

private theorem Steps.size_eq {r : Reader (List Node)} {i j : Input} {ns : List Node}
    (h : Steps r i ns j) : i.size = j.size := by
  induction h with
  | refl => rfl
  | head _ hlt _ ih => exact hlt.2.trans ih

/-- Steps follow on steps. -/
theorem Steps.trans {r : Reader (List Node)} {i j k : Input} {ns ms : List Node}
    (h : Steps r i ns j) (h' : Steps r j ms k) : Steps r i (ns ++ ms) k := by
  induction h with
  | refl => exact h'
  | head hr hlt _ ih =>
    rw [List.append_assoc]
    exact .head hr hlt (ih h')

/-- A run of the reader that comes further is a step. -/
theorem Steps.one {r : Reader (List Node)} {i j : Input} {ns : List Node} (h : r i = some (ns, j))
    (hlt : i.Before j) : Steps r i ns j := by
  have hone := Steps.head h hlt .refl
  rwa [List.append_nil] at hone

/-- A reader that steps until it fails has been run as often as it succeeds. -/
theorem repeatUpTo_of_steps {r : Reader (List Node)} {i j : Input} {ns : List Node}
    (h : Steps r i ns j) (hend : r j = none) {n : Nat} (hn : j.offset - i.offset ≤ n) :
    repeatUpTo r n i = some (ns, j) := by
  induction h generalizing n with
  | refl =>
    cases n with
    | zero => rfl
    | succ n => simp only [repeatUpTo, hend]
  | @head i j k ns ms hr hlt hs ih =>
    have hle := hs.offset_le
    have hlt' := hlt.1
    obtain ⟨n, rfl⟩ : ∃ l, n = l + 1 := ⟨n - 1, by omega⟩
    simp only [repeatUpTo, hr, Nat.not_le.2 hlt.1, if_false]
    exact map_of_some (ih hend (by omega))

/-- A repetition takes all steps up to where the reader fails. -/
theorem many_of_steps {r : Reader (List Node)} {i j : Input} {ns : List Node} (h : Steps r i ns j)
    (hend : r j = none) (hj : j.offset ≤ j.size) : many r i = some (ns, j) := by
  rw [many, get_bind]
  refine repeatUpTo_of_steps h hend ?_
  have hsize := h.size_eq
  rw [Input.fuel]
  omega

/-- A repetition of a reader that fails at once takes nothing. -/
theorem many_of_none {r : Reader (List Node)} {i : Input} (h : r i = none) :
    many r i = some ([], i) := by
  rw [many, get_bind, Input.fuel, repeatUpTo]
  simp only [h]

/-! ## Positions -/

/-- The characters behind one space. -/
def skipSpace : List Char → List Char
  | ' ' :: cs => cs
  | cs => cs

/-- Whether a token can start here: neither a blank nor a comment does. -/
def opens : List Char → Bool
  | [] => true
  | c :: _ => !isBlank c && c != '/'

/-- Whether a token starts here. -/
def starts : List Char → Bool
  | [] => false
  | c :: _ => !isBlank c && c != '/'

/-- What starts with a visible character opens, whatever follows. -/
theorem opens_append_of_starts {cs : List Char} (h : starts cs = true) (k : List Char) :
    opens (cs ++ k) = true := by
  cases cs with
  | nil => cases h
  | cons c cs => exact h

/-- There is no space in front of a visible character. -/
theorem skipSpace_append_of_starts {cs : List Char} (h : starts cs = true) (k : List Char) :
    skipSpace (cs ++ k) = cs ++ k := by
  match cs with
  | c :: cs =>
    rw [List.cons_append, skipSpace.eq_def]
    split
    next hcons =>
      obtain rfl := (List.cons.inj hcons).1
      exact absurd h (by simp [starts, show isBlank ' ' = true from rfl])
    · rfl

/-- A position in a typed source of some size at which `cs` is still to be read, if no comment has
been skipped. -/
structure At (size : Nat) (i : Input) (cs : List Char) : Prop where
  rest : i.rest = cs
  typed : i.language.hasTypes = true
  /-- The last token stands on the same line. -/
  sameLine : i.newline = false
  /-- No comment has been skipped. -/
  comments : i.comments = []
  whole : i.size = size
  offset : i.offset + String.utf8Len cs = size

/-- Space that is skipped leaves no more bytes than before. -/
theorem utf8Len_skipSpace_le (cs : List Char) :
    String.utf8Len (skipSpace cs) ≤ String.utf8Len cs := by
  rw [skipSpace.eq_def]
  split
  · rw [String.utf8Len_cons]
    omega
  · exact Nat.le_refl _

/-- The bytes of characters are counted as those of a string are. -/
theorem byteCount_eq (cs : List Char) : byteCount cs = String.utf8Len cs := by
  have hfold : ∀ n, cs.foldl (fun n c => n + c.utf8Size) n = n + String.utf8Len cs := by
    induction cs with
    | nil => intro n; rfl
    | cons c cs ih =>
      intro n
      rw [List.foldl_cons, ih, String.utf8Len_cons]
      omega
  rw [byteCount, hfold, Nat.zero_add]

/-- Unless a comment starts, blanks are skipped one by one. -/
theorem skipGap_cons {c : Char} (h : c ≠ '/') (cs : List Char) (i : Input) :
    skipGap .blank (c :: cs) i =
      if isBlank c then
        skipGap .blank cs
          { i with offset := i.offset + c.utf8Size, newline := i.newline || isLineBreak c }
      else { i with rest := c :: cs } := by
  rw [skipGap.eq_def]
  dsimp only
  split <;> simp_all

/-- Where a visible character stands there is no gap to skip. -/
private theorem skipGap_of_opens {cs : List Char} (h : opens cs = true) (i : Input) :
    skipGap .blank cs i = { i with rest := cs } := by
  match cs with
  | [] => rfl
  | c :: cs =>
    simp only [opens, Bool.and_eq_true, Bool.not_eq_true', bne_iff_ne, ne_eq] at h
    rw [skipGap_cons h.2, if_neg (by simp [h.1])]

namespace At

variable {size : Nat} {i : Input} {cs k : List Char}

/-- A position lies within the source. -/
theorem offset_le_size (h : At size i cs) : i.offset ≤ i.size := by
  have := h.offset
  have := h.whole
  omega

/-- The position behind some characters. -/
theorem after (h : At size i (cs ++ k)) : At size (i.after k (String.utf8Len cs)) k := by
  have hoffset := h.offset
  rw [String.utf8Len_append] at hoffset
  exact ⟨rfl, h.typed, rfl, h.comments, h.whole, by simp only [Input.after]; omega⟩

/-- Nothing is skipped where a token starts. -/
theorem settled_eq (h : At size i cs) (hopen : opens cs = true) : i.settled = i := by
  rw [Input.settled, h.rest, skipGap_of_opens hopen, ← h.rest]

/-- A space in front of a token is skipped. -/
theorem settled (h : At size i cs) (hopen : opens (skipSpace cs) = true) :
    At size i.settled (skipSpace cs) := by
  rw [skipSpace.eq_def] at hopen ⊢
  split at hopen
  next cs =>
    have hoffset := h.offset
    rw [String.utf8Len_cons] at hoffset
    rw [Input.settled, h.rest, skipGap_cons (by decide), if_pos (by decide),
      skipGap_of_opens hopen]
    have hline : (i.newline || isLineBreak ' ') = false := by
      rw [h.sameLine]
      decide
    exact ⟨rfl, h.typed, hline, h.comments, h.whole, by dsimp only; omega⟩
  · rw [h.settled_eq hopen]
    exact h

/-- Where less is to be read is further on. -/
theorem before (h : At size i cs) {j : Input} {ds : List Char} (hj : At size j ds)
    (hlt : String.utf8Len ds < String.utf8Len cs) : i.Before j := by
  have := h.offset
  have := hj.offset
  exact ⟨by omega, h.whole.trans hj.whole.symm⟩

/-- Some position stands before any characters. -/
theorem exists_at (cs : List Char) : ∃ size i, At size i cs :=
  ⟨String.utf8Len cs, ⟨.typescript, cs, 0, String.utf8Len cs, 0, false, []⟩, rfl, rfl, rfl, rfl,
    rfl, Nat.zero_add _⟩

/-! ### Tokens -/

/-- A lead that stands there is dropped. -/
private theorem dropLead?_append (ps cs : List Char) : dropLead? ps (ps ++ cs) = some cs := by
  induction ps with
  | nil => rfl
  | cons p ps ih => simpa [dropLead?] using ih

/-- A lead with another first character is not dropped. -/
theorem dropLead?_eq_none {p : Char} {cs : List Char} (h : cs.head? ≠ some p) (ps : List Char) :
    dropLead? (p :: ps) cs = none := by
  match cs with
  | [] => rfl
  | c :: cs =>
    have hne : p ≠ c := by
      rintro rfl
      exact h rfl
    simp [dropLead?, hne]

/-- A text with another first character is not recognised. -/
theorem startsWith_eq_false {s : String} {p : Char} {ps : List Char} (h : At size i cs)
    (hs : s.toList = p :: ps) (hne : cs.head? ≠ some p) : i.startsWith s = false := by
  rw [Input.startsWith, hs, h.rest, dropLead?_eq_none hne, Option.isSome_none]

/-- A text that follows is recognised. -/
theorem startsWith_eq_true {s : String} (h : At size i (s.toList ++ k)) :
    i.startsWith s = true := by
  rw [Input.startsWith, h.rest, dropLead?_append, Option.isSome_some]

/-- A token that follows is taken as a leaf that spans it. -/
theorem rawToken_eq {s : String} (h : At size i (s.toList ++ k)) :
    rawToken s i = some (leaf (.token s) i.offset (i.offset + s.utf8ByteSize),
      i.after k (String.utf8Len s.toList)) := by
  simp only [rawToken, h.rest, dropLead?_append, String.utf8Len_toList]

/-- A token with another first character is not taken. -/
theorem rawToken_eq_none {s : String} {p : Char} {ps : List Char} (h : At size i cs)
    (hs : s.toList = p :: ps) (hne : cs.head? ≠ some p) : rawToken s i = none := by
  simp only [rawToken, h.rest, hs, dropLead?_eq_none hne]

/-- A token is read with the space behind it. -/
theorem token {s : String} (h : At size i (s.toList ++ k)) (hopen : opens (skipSpace k) = true) :
    ∃ t j, token s i = some (t, j) ∧ t.isNamed = false ∧ At size j (skipSpace k) := by
  refine ⟨leaf (.token s) i.offset (i.offset + s.utf8ByteSize), _, ?_, rfl,
    h.after.settled hopen⟩
  rw [Reader.token, bind_of_some h.rawToken_eq]
  rfl

/-- A token with another first character is not taken, blanks or not. -/
theorem token_eq_none {s : String} {p : Char} {ps : List Char} (h : At size i cs)
    (hs : s.toList = p :: ps) (hne : cs.head? ≠ some p) : Reader.token s i = none := by
  rw [Reader.token, bind_of_none (h.rawToken_eq_none hs hne)]

/-- A token that no follower forbids is taken with the blanks after it. -/
theorem tokenUnless {s : String} {followers : List Char} (h : At size i (s.toList ++ k))
    (hopen : opens (skipSpace k) = true)
    (hfollow : (k.head?.map followers.contains).getD false = false) :
    ∃ t j, tokenUnless s followers i = some (t, j) ∧ t.isNamed = false ∧
      At size j (skipSpace k) := by
  refine ⟨leaf (.token s) i.offset (i.offset + s.utf8ByteSize), _, ?_, rfl,
    h.after.settled hopen⟩
  rw [Reader.tokenUnless, bind_of_some h.rawToken_eq, get_bind]
  have hpeek : (Option.map followers.contains
      (i.after k (String.utf8Len s.toList)).peek?).getD false = false := hfollow
  rw [hpeek]
  rfl

/-- A token with another first character is not taken, whatever may follow it. -/
theorem tokenUnless_eq_none {s : String} {p : Char} {ps followers : List Char}
    (h : At size i cs) (hs : s.toList = p :: ps) (hne : cs.head? ≠ some p) :
    Reader.tokenUnless s followers i = none := by
  rw [Reader.tokenUnless, bind_of_none (h.rawToken_eq_none hs hne)]

end At

/-! ## Names -/

/-- Whether characters are a name. -/
def isWord (w : List Char) : Bool := w.head?.any isNameStart && w.all isNamePart

/-- Whether a name ends before some characters. -/
def endsName (k : List Char) : Bool := k.head?.all (!isNamePart ·)

namespace At

variable {size : Nat} {i : Input} {w cs k : List Char}

/-- The word at a position is the longest run of name characters. -/
theorem wordChars_eq (h : At size i (w ++ k)) (hw : isWord w = true) (hk : endsName k = true) :
    i.wordChars = w := by
  rw [isWord, Bool.and_eq_true] at hw
  match w with
  | [] => simp at hw
  | c :: w =>
    have hstart : isNameStart c = true := hw.1
    have hnone : k.takeWhile isNamePart = [] := by
      match k with
      | [] => rfl
      | d :: k =>
        have hd : isNamePart d = false := by simpa [endsName] using hk
        simp [hd]
    simp only [Input.wordChars, h.rest, List.cons_append, hstart, if_true]
    rw [← List.cons_append, List.takeWhile_append_of_pos (by simpa using hw.2), hnone,
      List.append_nil]

/-- No name starts with a character that cannot start one. -/
theorem wordChars_eq_nil (h : At size i cs) (hcs : cs.head?.any isNameStart = false) :
    i.wordChars = [] := by
  match cs with
  | [] => simp only [Input.wordChars, h.rest]
  | c :: cs =>
    have hc : isNameStart c = false := hcs
    simp only [Input.wordChars, h.rest, hc, Bool.false_eq_true, if_false]

/-- Behind a word come the blanks, and then what follows. -/
theorem afterWord (h : At size i (w ++ k)) (hw : isWord w = true) (hk : endsName k = true)
    (hopen : opens (skipSpace k) = true) : At size i.afterWord (skipSpace k) := by
  rw [Input.afterWord, h.wordChars_eq hw hk, h.rest, List.drop_left, byteCount_eq]
  exact h.after.settled hopen

/-- A word that follows is taken as a leaf of the kind asked for. -/
theorem nameLeaf (h : At size i (w ++ k)) (hw : isWord w = true) (hk : endsName k = true)
    (hopen : opens (skipSpace k) = true) (kind : Kind) :
    ∃ n j, nameLeaf kind i = some (n, j) ∧ n.is kind = true ∧ At size j (skipSpace k) := by
  refine ⟨leaf (.rule kind) i.offset (i.offset + byteCount w), i.afterWord, ?_,
    beq_self_eq_true _, h.afterWord hw hk hopen⟩
  have hwordChars := h.wordChars_eq hw hk
  match w with
  | [] => simp [isWord] at hw
  | c :: w => simp only [Reader.nameLeaf, hwordChars]

/-- Where no name starts no name is taken. -/
theorem nameLeaf_eq_none (h : At size i cs) (hcs : cs.head?.any isNameStart = false)
    (kind : Kind) : Reader.nameLeaf kind i = none := by
  simp only [Reader.nameLeaf, h.wordChars_eq_nil hcs]

/-- A keyword is not taken from another word. -/
theorem keyword_eq_none {s : String} (h : i.wordChars ≠ s.toList) : keyword s i = none := by
  rw [keyword, if_neg]
  rw [beq_iff_eq, Input.word]
  rintro rfl
  exact h (String.toList_ofList).symm

end At

end StableProps.Reader

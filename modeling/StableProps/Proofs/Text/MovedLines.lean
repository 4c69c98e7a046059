import Mathlib.Data.List.TakeWhile
import StableProps.Proofs.Text.Lines

/-!
# Moving lines

Lines that may move and are not blank lose the part of their indentation that all of them share and
get another one instead. Apart from that only white space in blank lines goes. So all that is no
white space keeps its order, and what stands in a range in which no line may move keeps every byte.
-/

namespace StableProps

namespace Bytes

/-- The spaces and tabs that a line starts with. -/
def indentation (line : Bytes) : Bytes := line.takeWhile isIndent

/-- A line without its indentation. -/
def content (line : Bytes) : Bytes := line.dropWhile isIndent

/-- A line is its indentation and its content. -/
private theorem indentation_append_content (line : Bytes) :
    line.indentation ++ line.content = line :=
  List.takeWhile_append_dropWhile

private theorem isIndent_of_mem_indentation {line : Bytes} {b : UInt8} (h : b ∈ line.indentation) :
    isIndent b = true := List.mem_takeWhile_imp h

/-- The content of a line is not indented. -/
private theorem indentation_content (line : Bytes) : line.content.indentation = [] :=
  List.takeWhile_eq_nil_iff.2 (List.dropWhile_get_zero_not isIndent line)

/-- Spaces and tabs in front of a line without any are its indentation. -/
theorem indentation_append {front : Bytes} (h : ∀ b ∈ front, isIndent b = true) (line : Bytes) :
    (front ++ line.content).indentation = front ∧
      (front ++ line.content).content = line.content := by
  constructor
  · rw [indentation, List.takeWhile_append_of_pos h, ← indentation, indentation_content,
      List.append_nil]
  · rw [content, List.dropWhile_append_of_pos h]
    exact List.dropWhile_eq_self_iff.2 (List.dropWhile_get_zero_not isIndent line)

private theorem toNat_lt_of_isIndent {b : UInt8} (h : isIndent b = true) : b.toNat < 128 := by
  rw [isIndent, Bool.or_eq_true, beq_iff_eq, beq_iff_eq] at h
  rcases h with rfl | rfl <;> decide

end Bytes

namespace Line

variable {ranges : List (Nat × Nat)} {common : Nat} {indent : Bytes}

/-- An offset lies strictly inside one of the ranges. -/
def IsInside (ranges : List (Nat × Nat)) (offset : Nat) : Prop :=
  ∃ r ∈ ranges, r.1 < offset ∧ offset < r.2

/-- An offset is inside of one of some ranges exactly if it is found to be. -/
private theorem any_iff_isInside {offset : Nat} :
    (ranges.any fun r => r.1 < offset && offset < r.2) = true ↔ IsInside ranges offset := by
  simp [IsInside, List.any_eq_true]

/-- The offset at which a line starts, the first of all lines starting at an offset. -/
def offset (start : Nat) : List Bytes → Nat → Nat
  | [], _ => start
  | _ :: _, 0 => start
  | l :: ls, i + 1 => offset (start + l.length + 1) ls i

/-- A line is marked by where it starts; the first one of an expression is never movable. -/
theorem getElem?_mark (ranges : List (Nat × Nat)) (first : Bool) (start : Nat)
    (lines : List Bytes) (i : Nat) :
    (mark ranges first start lines)[i]? = lines[i]?.map fun l =>
      ⟨l, !(first && i == 0) &&
        !ranges.any fun r => r.1 < offset start lines i && offset start lines i < r.2⟩ := by
  induction lines generalizing first start i with
  | nil => simp [mark]
  | cons l ls ih =>
    cases i with
    | zero =>
      rw [mark, offset, List.getElem?_cons_zero, List.getElem?_cons_zero]
      simp
    | succ i =>
      rw [mark, List.getElem?_cons_succ, List.getElem?_cons_succ, ih, offset]
      simp

/-- Marking lines does not change them. -/
theorem map_bytes_mark (ranges : List (Nat × Nat)) (first : Bool) (start : Nat)
    (lines : List Bytes) : (mark ranges first start lines).map bytes = lines := by
  induction lines generalizing first start with
  | nil => rfl
  | cons l ls ih => rw [mark, List.map_cons, ih]

theorem width_eq (l : Line) : l.width = l.bytes.indentation.length := rfl

/-- What lines share of their indentation can be told from the rest of a line. -/
theorem drop_eq {l : Line} (h : common ≤ l.width) :
    l.bytes.drop common = l.bytes.indentation.drop common ++ l.bytes.content := by
  rw [width_eq] at h
  rw [← List.drop_append_of_le_length h, Bytes.indentation_append_content]

/-- What is cut off a line is indentation. -/
private theorem isIndent_of_mem_take {l : Line} (h : common ≤ l.width) {b : UInt8}
    (hb : b ∈ l.bytes.take common) : Bytes.isIndent b = true := by
  have hfront : l.bytes.take common <+: l.bytes.indentation :=
    List.prefix_of_prefix_length_le (List.take_prefix common l.bytes) (List.takeWhile_prefix _)
      ((List.length_take_le common l.bytes).trans h)
  exact Bytes.isIndent_of_mem_indentation (hfront.subset hb)

/-! ## One line -/

section moved

variable {l : Line}

/-- A line that cannot be moved stays as it is. -/
theorem moved_of_not_movable (h : l.movable = false) : moved common indent l = l.bytes := by
  rw [moved, h]
  rfl

/-- A blank line that can be moved becomes empty. -/
private theorem moved_of_isBlank (h : l.movable = true) (hblank : l.isBlank = true) :
    moved common indent l = [] := by
  rw [moved, h, hblank]
  rfl

/-- A line gets the indentation asked for in place of what it shares with others. -/
theorem indentation_moved (hindent : ∀ b ∈ indent, Bytes.isIndent b = true)
    (h : l.movable = true) (hblank : l.isBlank = false) (hwidth : common ≤ l.width) :
    (moved common indent l).indentation = indent ++ l.bytes.indentation.drop common ∧
      (moved common indent l).content = l.bytes.content := by
  have hfront : ∀ b ∈ indent ++ l.bytes.indentation.drop common, Bytes.isIndent b = true := by
    intro b hb
    rcases List.mem_append.1 hb with hb | hb
    · exact hindent b hb
    · exact Bytes.isIndent_of_mem_indentation (List.mem_of_mem_drop hb)
  have hmoved : moved common indent l =
      (indent ++ l.bytes.indentation.drop common) ++ l.bytes.content := by
    rw [List.append_assoc, ← drop_eq hwidth, moved, h, hblank]
    rfl
  rw [hmoved]
  exact Bytes.indentation_append hfront l.bytes

/-- What a line holds behind its indentation stays, or the line is blank. -/
theorem content_moved (hindent : ∀ b ∈ indent, Bytes.isIndent b = true)
    (hwidth : l.movable = true → l.isBlank = false → common ≤ l.width) :
    (moved common indent l).content = l.bytes.content ∨
      l.isBlank = true ∧ moved common indent l = [] := by
  cases hmovable : l.movable with
  | false => exact .inl (by rw [moved_of_not_movable hmovable])
  | true =>
    cases hblank : l.isBlank with
    | false => exact .inl (indentation_moved hindent hmovable hblank (hwidth hmovable hblank)).2
    | true => exact .inr ⟨rfl, moved_of_isBlank hmovable hblank⟩

/-- A moved line is one line. -/
theorem newline_not_mem_moved (hindent : ∀ b ∈ indent, Bytes.isIndent b = true)
    (h : Bytes.newline ∉ l.bytes) : Bytes.newline ∉ moved common indent l := by
  rw [moved]
  split_ifs
  · exact h
  · exact List.not_mem_nil
  · rw [List.mem_append, not_or]
    exact ⟨fun hmem => absurd (hindent _ hmem) (by decide),
      fun hmem => h (List.mem_of_mem_drop hmem)⟩

/-- A moved line of text is text. -/
theorem isText_moved (hindent : Bytes.IsText indent) (h : l.bytes.IsText)
    (hwidth : l.movable = true → l.isBlank = false → common ≤ l.width) :
    (moved common indent l).IsText := by
  rw [moved]
  split_ifs with hmovable hblank
  · exact h
  · exact Bytes.isText_nil
  · have hwidth := hwidth (by simpa using hmovable) (by simpa using hblank)
    rw [← List.take_append_drop common l.bytes] at h
    exact hindent.append (h.of_ascii_append fun b hb =>
      Bytes.toNat_lt_of_isIndent (isIndent_of_mem_take hwidth hb))

end moved

/-! ## Moved lines from an offset on -/

/-- Bytes with their lines moved. They begin in the middle of a line, or with one. -/
def rendered (ranges : List (Nat × Nat)) (common : Nat) (indent : Bytes) (inLine : Bool)
    (start : Nat) (bs : Bytes) : Bytes :=
  Bytes.joinLines ((mark ranges inLine start bs.split).map (moved common indent))

/-- Lines that may move and are not blank have some width at least. -/
def Allows (ranges : List (Nat × Nat)) (common : Nat) (inLine : Bool) (start : Nat)
    (bs : Bytes) : Prop :=
  ∀ l ∈ mark ranges inLine start bs.split, l.movable = true → l.isBlank = false → common ≤ l.width

/-- Whether a byte stays when lines are moved: white space within a line may not. -/
def isKept (b : UInt8) : Bool := b == Bytes.newline || !Bytes.isBlank b

private theorem isKept_of_isIndent {b : UInt8} (h : Bytes.isIndent b = true) :
    isKept b = false := by
  rw [Bytes.isIndent, Bool.or_eq_true, beq_iff_eq, beq_iff_eq] at h
  rcases h with rfl | rfl <;> rfl

private theorem isKept_eq_false {b : UInt8} (hb : b ≠ Bytes.newline) (h : Bytes.isBlank b = true) :
    isKept b = false := by
  simp [isKept, hb, h]

/-- Nothing is kept of blanks in front. -/
private theorem filter_isKept_append {bs : Bytes} (h : ∀ b ∈ bs, isKept b = false) (rest : Bytes) :
    (bs ++ rest).filter isKept = rest.filter isKept := by
  rw [List.filter_append, List.filter_eq_nil_iff.2 fun b hb => by simp [h b hb], List.nil_append]

section step

variable {inLine : Bool} {start : Nat} {bs rest p q m : Bytes} {ls : List Bytes}

/-- Behind the front of a line the next line starts where it did. -/
theorem next_append (start : Nat) (q m : Bytes) :
    start + (q ++ m).length + 1 = start + q.length + m.length + 1 := by
  rw [List.length_append]
  omega

/-- The rest of a line is gone on with once the front of the line has been put down. -/
theorem rendered_of_moved (hsplit : bs.split = (q ++ m) :: ls) (hrest : rest.split = m :: ls)
    (hmoved : moved common indent ⟨q ++ m, !inLine &&
      !ranges.any fun r => r.1 < start && start < r.2⟩ = p ++ m) :
    rendered ranges common indent inLine start bs =
      p ++ rendered ranges common indent true (start + q.length) rest := by
  rw [rendered, hsplit, mark, List.map_cons, hmoved, Bytes.joinLines_append_cons,
    next_append, rendered, hrest]
  rfl

/-- The lines behind the first one are allowed if all are. -/
private theorem Allows.of_split (h : Allows ranges common inLine start bs)
    (hsplit : bs.split = (q ++ m) :: ls) (hrest : rest.split = m :: ls) :
    Allows ranges common true (start + q.length) rest := by
  rw [Allows, hsplit, mark, next_append] at h
  intro l hl hmovable
  rw [hrest, mark] at hl
  rcases List.mem_cons.1 hl with rfl | hl
  · exact absurd hmovable Bool.false_ne_true
  · exact h l (List.mem_cons_of_mem _ hl) hmovable

/-- A byte within a line is put down as it is. -/
theorem rendered_cons (indent : Bytes) {b : UInt8} (hb : b ≠ Bytes.newline)
    (h : Allows ranges common true start (b :: bs)) :
    rendered ranges common indent true start (b :: bs) =
        b :: rendered ranges common indent true (start + 1) bs ∧
      Allows ranges common true (start + 1) bs := by
  obtain ⟨l, ls, hsplit⟩ := List.exists_cons_of_ne_nil (Bytes.split_ne_nil bs)
  have hcons : Bytes.split (b :: bs) = ([b] ++ l) :: ls := Bytes.split_cons hb hsplit
  exact ⟨rendered_of_moved (p := [b]) hcons hsplit rfl, h.of_split hcons hsplit⟩

/-- A line feed is put down as it is, and a line begins behind it. -/
theorem rendered_newline (indent : Bytes)
    (h : Allows ranges common true start (Bytes.newline :: bs)) :
    rendered ranges common indent true start (Bytes.newline :: bs) =
        Bytes.newline :: rendered ranges common indent false (start + 1) bs ∧
      Allows ranges common false (start + 1) bs := by
  obtain ⟨l, ls, hsplit⟩ := List.exists_cons_of_ne_nil (Bytes.split_ne_nil bs)
  constructor
  · rw [rendered, Bytes.split_newline_cons, mark, List.map_cons,
      Bytes.joinLines_cons _ (by simp [hsplit, mark])]
    rfl
  · exact fun m hm => h m (List.mem_cons_of_mem _ hm)

/-- A line that starts inside a range is put down as it is. -/
theorem rendered_of_isInside (indent : Bytes) (hinside : IsInside ranges start)
    (h : Allows ranges common false start bs) :
    rendered ranges common indent false start bs = rendered ranges common indent true start bs ∧
      Allows ranges common true start bs := by
  obtain ⟨l, ls, hsplit⟩ := List.exists_cons_of_ne_nil (Bytes.split_ne_nil bs)
  have hcons : bs.split = ([] ++ l) :: ls := hsplit
  refine ⟨rendered_of_moved (p := []) hcons hsplit ?_, h.of_split hcons hsplit⟩
  rw [any_iff_isInside.2 hinside]
  rfl

/-- White space at the start of a line is put down in place of other white space. -/
theorem exists_rendered_false (hindent : ∀ b ∈ indent, Bytes.isIndent b = true)
    (h : Allows ranges common false start bs) :
    ∃ p q rest, bs = q ++ rest ∧ (∀ b ∈ p, isKept b = false) ∧ (∀ b ∈ q, isKept b = false) ∧
      rendered ranges common indent false start bs =
        p ++ rendered ranges common indent true (start + q.length) rest ∧
      Allows ranges common true (start + q.length) rest := by
  by_cases hinside : IsInside ranges start
  · exact ⟨[], [], bs, rfl, by simp, by simp, rendered_of_isInside indent hinside h⟩
  obtain ⟨l, ls, hsplit⟩ := List.exists_cons_of_ne_nil (Bytes.split_ne_nil bs)
  have hmovable : (ranges.any fun r => r.1 < start && start < r.2) = false :=
    Bool.eq_false_iff.2 (mt any_iff_isInside.1 hinside)
  by_cases hblank : isBlank ⟨l, true⟩ = true
  · -- All of a blank line goes.
    have hcons : bs.split = (l ++ []) :: ls := by rw [hsplit, List.append_nil]
    obtain ⟨rest, hbs, hrest⟩ := Bytes.split_of_append hcons
    refine ⟨[], l, rest, hbs, by simp, fun b hb => isKept_eq_false ?_ ?_,
      rendered_of_moved hcons hrest ?_, h.of_split hcons hrest⟩
    · rintro rfl
      exact Bytes.newline_not_mem_of_mem_split (hsplit ▸ List.mem_cons_self) hb
    · exact List.all_eq_true.1 hblank b hb
    · rw [List.append_nil, hmovable]
      exact if_pos hblank
  · -- Of another one goes the indentation that it shares with the others.
    have hwidth : common ≤ width ⟨l, true⟩ := by
      rw [Allows, hsplit, mark, hmovable] at h
      exact h _ List.mem_cons_self rfl (Bool.eq_false_iff.2 hblank)
    have hcons : bs.split = (l.take common ++ l.drop common) :: ls := by
      rw [hsplit, List.take_append_drop]
    obtain ⟨rest, hbs, hrest⟩ := Bytes.split_of_append hcons
    refine ⟨indent, l.take common, rest, hbs, fun b hb => isKept_of_isIndent (hindent b hb),
      fun b hb => isKept_of_isIndent (isIndent_of_mem_take hwidth hb),
      rendered_of_moved hcons hrest ?_, h.of_split hcons hrest⟩
    rw [List.take_append_drop, hmovable]
    exact if_neg hblank

end step

/-! ## Texts that are not changed -/

/-- Bytes in front of one that is kept change in white space only. -/
theorem exists_rendered_append (hindent : ∀ b ∈ indent, Bytes.isIndent b = true) {rest : Bytes}
    (hrest : ∀ b ∈ rest.head?, isKept b = true) (size : Nat) {start : Nat} {bs : Bytes}
    (hsize : bs.length ≤ size) (h : Allows ranges common true start (bs ++ rest)) :
    ∃ before, before.filter isKept = bs.filter isKept ∧
      rendered ranges common indent true start (bs ++ rest) =
        before ++ rendered ranges common indent true (start + bs.length) rest ∧
      Allows ranges common true (start + bs.length) rest := by
  induction size generalizing start bs with
  | zero =>
    obtain rfl := List.length_eq_zero_iff.1 (Nat.le_zero.1 hsize)
    exact ⟨[], rfl, rfl, h⟩
  | succ size ih =>
    cases bs with
    | nil => exact ⟨[], rfl, rfl, h⟩
    | cons b bs =>
      rw [List.length_cons] at hsize
      rw [List.cons_append] at h ⊢
      by_cases hb : b = Bytes.newline
      · subst hb
        obtain ⟨hline, hallows⟩ := rendered_newline indent h
        obtain ⟨p, q, more, hmore, hp, hq, hfront, hallows⟩ :=
          exists_rendered_false hindent hallows
        -- White space that is replaced does not reach the byte that is kept.
        obtain ⟨bs', rfl, rfl⟩ : ∃ bs', bs = q ++ bs' ∧ more = bs' ++ rest := by
          rcases List.append_eq_append_iff.1 hmore with ⟨bs', hbs, hrest'⟩ | ⟨bs', hbs, hrest'⟩
          · cases bs' with
            | nil => exact ⟨[], by simpa using hbs.symm, by simpa using hrest'.symm⟩
            | cons c bs' =>
              have hkept := hrest c (by rw [hrest']; rfl)
              rw [hq c (hbs ▸ by simp)] at hkept
              exact absurd hkept Bool.false_ne_true
          · exact ⟨bs', hbs, hrest'⟩
        rw [List.length_append] at hsize
        obtain ⟨before, hkept, hbefore, hallows⟩ := ih (by omega) hallows
        have hoffset : start + (Bytes.newline :: (q ++ bs')).length =
            start + 1 + q.length + bs'.length := by
          rw [List.length_cons, List.length_append]
          omega
        refine ⟨Bytes.newline :: (p ++ before), ?_, ?_, hoffset ▸ hallows⟩
        · rw [List.filter_cons_of_pos (by rfl), List.filter_cons_of_pos (by rfl),
            filter_isKept_append hp, filter_isKept_append hq, hkept]
        · rw [hline, hfront, hbefore, hoffset, List.cons_append, List.append_assoc]
      · obtain ⟨hline, hallows⟩ := rendered_cons indent hb h
        obtain ⟨before, hkept, hbefore, hallows⟩ := ih (Nat.le_of_succ_le_succ hsize) hallows
        have hoffset : start + (b :: bs).length = start + 1 + bs.length := by
          rw [List.length_cons]
          omega
        refine ⟨b :: before, ?_, ?_, hoffset ▸ hallows⟩
        · rw [List.filter_cons, List.filter_cons, hkept]
        · rw [hline, hbefore, hoffset, List.cons_append]

/-- Within a range all bytes are put down as they are. -/
theorem exists_rendered_range (indent : Bytes) {start stop : Nat}
    (hrange : (start, stop) ∈ ranges) {offset : Nat} {bs rest : Bytes} (hstart : start ≤ offset)
    (hstop : offset + bs.length = stop)
    (h : Allows ranges common true offset (bs ++ rest)) :
    ∃ inLine, rendered ranges common indent true offset (bs ++ rest) =
        bs ++ rendered ranges common indent inLine stop rest ∧
      Allows ranges common inLine stop rest := by
  induction bs generalizing offset with
  | nil =>
    obtain rfl : offset = stop := hstop
    exact ⟨true, rfl, h⟩
  | cons b bs ih =>
    rw [List.length_cons] at hstop
    rw [List.cons_append] at h ⊢
    by_cases hb : b = Bytes.newline
    · subst hb
      obtain ⟨hline, hallows⟩ := rendered_newline indent h
      cases bs with
      | nil =>
        obtain rfl : offset + 1 = stop := by simpa using hstop
        exact ⟨false, hline, hallows⟩
      | cons c bs =>
        have hinside : IsInside ranges (offset + 1) := by
          refine ⟨_, hrange, Nat.lt_succ_of_le hstart, ?_⟩
          rw [List.length_cons] at hstop
          dsimp only
          omega
        obtain ⟨hsame, hallows⟩ := rendered_of_isInside indent hinside hallows
        obtain ⟨inLine, hrest, hallows⟩ := ih (Nat.le_succ_of_le hstart) (by omega) hallows
        exact ⟨inLine, by rw [hline, hsame, hrest]; rfl, hallows⟩
    · obtain ⟨hline, hallows⟩ := rendered_cons indent hb h
      obtain ⟨inLine, hrest, hallows⟩ := ih (Nat.le_succ_of_le hstart) (by omega) hallows
      exact ⟨inLine, by rw [hline, hrest, List.cons_append], hallows⟩

/-- Moving lines changes bytes in white space only. -/
theorem filter_isKept_rendered (hindent : ∀ b ∈ indent, Bytes.isIndent b = true) {inLine : Bool}
    {start : Nat} {bs : Bytes} (h : Allows ranges common inLine start bs) :
    (rendered ranges common indent inLine start bs).filter isKept = bs.filter isKept := by
  have hline {start : Nat} {bs : Bytes} (h : Allows ranges common true start bs) :
      (rendered ranges common indent true start bs).filter isKept = bs.filter isKept := by
    have hnil : Allows ranges common true start (bs ++ []) := by rwa [List.append_nil]
    obtain ⟨before, hkept, hbefore, -⟩ :=
      exists_rendered_append hindent (by simp) _ (Nat.le_refl bs.length) hnil
    rw [← hkept, ← List.append_nil bs, hbefore]
    exact congrArg (List.filter isKept) (List.append_nil before)
  cases inLine with
  | true => exact hline h
  | false =>
    obtain ⟨p, q, rest, rfl, hp, hq, hfront, hallows⟩ := exists_rendered_false hindent h
    rw [hfront, filter_isKept_append hp, filter_isKept_append hq, hline hallows]

end Line

end StableProps

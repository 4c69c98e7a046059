import Mathlib.Data.Char
import Mathlib.Data.List.TakeWhile
import StableProps.Text.Bytes

/-!
# Texts and their bytes

Reading the bytes of a text gives the text back. Bytes of a text stay those of a text if they are
cut where characters meet, and a byte below 128 is a character of its own.
-/

namespace StableProps.Bytes

/-- The bytes of characters. -/
def encode (cs : List Char) : Bytes := cs.flatMap String.utf8EncodeChar

private theorem encode_cons (c : Char) (cs : List Char) :
    encode (c :: cs) = String.utf8EncodeChar c ++ encode cs := List.flatMap_cons

/-- The bytes of characters in a row are those of each part in a row. -/
private theorem encode_append (cs ds : List Char) : encode (cs ++ ds) = encode cs ++ encode ds :=
  List.flatMap_append

/-- The bytes of a text are those of its characters. -/
private theorem ofText_ofList (cs : List Char) : ofText (String.ofList cs) = encode cs := by
  rw [ofText, String.toUTF8, String.toByteArray_ofList, List.utf8Encode, encode]
  simp

/-- The bytes of a text are those of its characters. -/
theorem ofText_eq_encode (s : String) : ofText s = encode s.toList := by
  rw [← ofText_ofList, String.ofList_toList]

/-! ## Reading characters -/

/-! What the first byte of a sequence tells about the others, by its number. -/

/-- The first bytes of sequences of two. -/
private theorem sequenceShape_two : ∀ k < 224, 194 ≤ k →
    sequenceShape (UInt8.ofNat k) = some (0x80, 0xbf, 1) := by
  decide +kernel

/-- The first bytes of sequences of three; two of them narrow the range of the second byte. -/
private theorem sequenceShape_three : ∀ k < 240, 224 ≤ k → sequenceShape (UInt8.ofNat k) =
    some (if k = 224 then 0xa0 else 0x80, if k = 237 then 0x9f else 0xbf, 2) := by
  decide +kernel

/-- The first bytes of sequences of four; two of them narrow the range of the second byte. -/
private theorem sequenceShape_four : ∀ k < 245, 240 ≤ k → sequenceShape (UInt8.ofNat k) =
    some (if k = 240 then 0x90 else 0x80, if k = 244 then 0x8f else 0xbf, 3) := by
  decide +kernel

private theorem isContinuation_iff {b : UInt8} :
    isContinuation b = true ↔ 128 ≤ b.toNat ∧ b.toNat ≤ 191 := by
  simp [isContinuation, UInt8.le_iff_toNat_le]

/-- A sequence that has the shape its first byte asks for is read as a whole. -/
theorem readChar_of_sequence {b low high : UInt8} {n : Nat} (x : UInt8) (more rest : Bytes)
    (hb : 128 ≤ b.toNat) (hshape : sequenceShape b = some (low, high, n))
    (hlow : low.toNat ≤ x.toNat) (hhigh : x.toNat ≤ high.toNat)
    (hmore : ∀ c ∈ more, isContinuation c = true) (hlength : n = more.length + 1) :
    readChar b (x :: (more ++ rest)) = (Char.ofNat ((x :: more).foldl
      (fun v c => v * 64 + c.toNat % 64) (leadBits b n)), n) := by
  have hnot : ¬b < 0x80 := by
    rw [UInt8.lt_iff_toNat_lt]
    exact Nat.not_lt.2 hb
  have htaken : more.takeWhile isContinuation = more := List.takeWhile_eq_self_iff.2 hmore
  rw [readChar, if_neg hnot, hshape]
  simp [UInt8.le_iff_toNat_le, hlow, hhigh, htaken, hlength]

theorem toNat_ofNat {k : Nat} (h : k < 256) : (UInt8.ofNat k).toNat = k := by
  rw [UInt8.toNat_ofNat', Nat.mod_eq_of_lt h]

/-- Six bits make a byte that continues a sequence. -/
private theorem isContinuation_ofNat (k : Nat) : isContinuation
    (UInt8.ofNat (k % 64 + 128)) = true := by
  rw [isContinuation_iff, toNat_ofNat (by omega)]
  omega

/-- Two bytes are read as the character that they encode. -/
private theorem readChar_two {v : Nat} (h : 127 < v) (h' : v ≤ 2047) (rest : Bytes) :
    readChar (UInt8.ofNat (v / 64 % 32 + 192)) (UInt8.ofNat (v % 64 + 128) :: rest) =
      (Char.ofNat v, 1) := by
  have hlead : (UInt8.ofNat (v / 64 % 32 + 192)).toNat = v / 64 % 32 + 192 :=
    toNat_ofNat (by omega)
  have hnext : (UInt8.ofNat (v % 64 + 128)).toNat = v % 64 + 128 := toNat_ofNat (by omega)
  have hread := readChar_of_sequence (UInt8.ofNat (v % 64 + 128)) [] rest (by omega)
    (sequenceShape_two (v / 64 % 32 + 192) (by omega) (by omega))
    (by rw [hnext]; exact Nat.le_add_left 128 _)
    (by rw [hnext]; change _ ≤ 191; omega) (by simp) rfl
  refine hread.trans ?_
  rw [List.foldl_cons, List.foldl_nil, leadBits, if_pos rfl, hlead, hnext]
  congr 2
  omega

/-- Three bytes are read as the character that they encode. -/
private theorem readChar_three {v : Nat} (h : 2047 < v) (h' : v ≤ 65535)
    (hvalid : v < 0xd800 ∨ 0xdfff < v) (rest : Bytes) :
    readChar (UInt8.ofNat (v / 4096 % 16 + 224)) (UInt8.ofNat (v / 64 % 64 + 128) ::
      UInt8.ofNat (v % 64 + 128) :: rest) = (Char.ofNat v, 2) := by
  have hlead : (UInt8.ofNat (v / 4096 % 16 + 224)).toNat = v / 4096 % 16 + 224 :=
    toNat_ofNat (by omega)
  have hnext : (UInt8.ofNat (v / 64 % 64 + 128)).toNat = v / 64 % 64 + 128 :=
    toNat_ofNat (by omega)
  have hlast : (UInt8.ofNat (v % 64 + 128)).toNat = v % 64 + 128 := toNat_ofNat (by omega)
  have hread := readChar_of_sequence (UInt8.ofNat (v / 64 % 64 + 128))
    [UInt8.ofNat (v % 64 + 128)] rest (by omega)
    (sequenceShape_three (v / 4096 % 16 + 224) (by omega) (by omega))
    (by rw [hnext]; split <;> simp; omega)
    (by rw [hnext]; split <;> simp <;> omega)
    (by simpa using isContinuation_ofNat v) rfl
  refine hread.trans ?_
  rw [List.foldl_cons, List.foldl_cons, List.foldl_nil, leadBits, if_neg (by decide), if_pos rfl,
    hlead, hnext, hlast]
  congr 2
  omega

/-- Four bytes are read as the character that they encode. -/
private theorem readChar_four {v : Nat} (h : 65535 < v) (h' : v < 0x110000) (rest : Bytes) :
    readChar (UInt8.ofNat (v / 262144 % 8 + 240)) (UInt8.ofNat (v / 4096 % 64 + 128) ::
      UInt8.ofNat (v / 64 % 64 + 128) :: UInt8.ofNat (v % 64 + 128) :: rest) =
      (Char.ofNat v, 3) := by
  have hlead : (UInt8.ofNat (v / 262144 % 8 + 240)).toNat = v / 262144 % 8 + 240 :=
    toNat_ofNat (by omega)
  have hnext : (UInt8.ofNat (v / 4096 % 64 + 128)).toNat = v / 4096 % 64 + 128 :=
    toNat_ofNat (by omega)
  have hthird : (UInt8.ofNat (v / 64 % 64 + 128)).toNat = v / 64 % 64 + 128 :=
    toNat_ofNat (by omega)
  have hlast : (UInt8.ofNat (v % 64 + 128)).toNat = v % 64 + 128 := toNat_ofNat (by omega)
  have hmore : ∀ c ∈ [UInt8.ofNat (v / 64 % 64 + 128), UInt8.ofNat (v % 64 + 128)],
      isContinuation c = true := by
    intro c hc
    simp only [List.mem_cons, List.not_mem_nil, or_false] at hc
    rcases hc with rfl | rfl
    · exact isContinuation_ofNat (v / 64)
    · exact isContinuation_ofNat v
  have hread := readChar_of_sequence (UInt8.ofNat (v / 4096 % 64 + 128))
    [UInt8.ofNat (v / 64 % 64 + 128), UInt8.ofNat (v % 64 + 128)] rest (by omega)
    (sequenceShape_four (v / 262144 % 8 + 240) (by omega) (by omega))
    (by rw [hnext]; split <;> simp; omega)
    (by rw [hnext]; split <;> simp <;> omega)
    hmore rfl
  refine hread.trans ?_
  rw [List.foldl_cons, List.foldl_cons, List.foldl_cons, List.foldl_nil, leadBits,
    if_neg (by decide), if_neg (by decide), hlead, hnext, hthird, hlast]
  congr 2
  omega

/-- A character is read from its own bytes, whatever follows. -/
theorem readChar_utf8EncodeChar (c : Char) : ∃ b more, String.utf8EncodeChar c = b :: more ∧
    ∀ rest, readChar b (more ++ rest) = (c, more.length) := by
  have hvalid : c.val.toNat < 0xd800 ∨ 0xdfff < c.val.toNat ∧ c.val.toNat < 0x110000 := c.valid
  have hchar : Char.ofNat c.val.toNat = c := Char.ofNat_toNat c
  rw [String.utf8EncodeChar]
  split_ifs with h₁ h₂ h₃
  all_goals refine ⟨_, _, rfl, fun rest => ?_⟩
  · have hascii : UInt8.ofNat c.val.toNat < 0x80 := by
      rw [UInt8.lt_iff_toNat_lt, toNat_ofNat (by omega)]
      exact Nat.lt_succ_of_le h₁
    rw [readChar, if_pos hascii, toNat_ofNat (by omega), hchar]
    rfl
  · exact (readChar_two (by omega) h₂ rest).trans (by rw [hchar]; rfl)
  · exact (readChar_three (by omega) h₃ (by omega) rest).trans (by rw [hchar]; rfl)
  · exact (readChar_four (by omega) (by omega) rest).trans (by rw [hchar]; rfl)

/-- Reading the bytes of characters gives them back. -/
theorem chars_encode (cs : List Char) : chars (encode cs) = cs := by
  induction cs with
  | nil => rw [encode, List.flatMap_nil, chars]
  | cons c cs ih =>
    obtain ⟨b, more, hbytes, hread⟩ := readChar_utf8EncodeChar c
    rw [encode_cons, hbytes, List.cons_append, chars, hread]
    dsimp only
    rw [List.drop_left, ih]

/-- Behind the first byte of a character there are only bytes that continue it, and none at all if
the first one is below 128. -/
theorem utf8EncodeChar_tail {c : Char} {b : UInt8} {more : Bytes}
    (h : String.utf8EncodeChar c = b :: more) :
    (∀ x ∈ more, isContinuation x = true) ∧ (b.toNat < 128 → more = []) := by
  have hlead {k : Nat} (hk : 128 ≤ k) (hk' : k < 256) : ¬(UInt8.ofNat k).toNat < 128 := by
    rw [toNat_ofNat hk']
    omega
  rw [String.utf8EncodeChar] at h
  split_ifs at h <;> obtain ⟨rfl, rfl⟩ := List.cons.inj h
  · simp
  · refine ⟨?_, fun hb => absurd hb (hlead (by omega) (by omega))⟩
    simp only [List.forall_mem_cons, isContinuation_ofNat, List.not_mem_nil, false_imp_iff,
      implies_true, and_self]
  · refine ⟨?_, fun hb => absurd hb (hlead (by omega) (by omega))⟩
    simp only [List.forall_mem_cons, isContinuation_ofNat, List.not_mem_nil, false_imp_iff,
      implies_true, and_self]
  · refine ⟨?_, fun hb => absurd hb (hlead (by omega) (by omega))⟩
    simp only [List.forall_mem_cons, isContinuation_ofNat, List.not_mem_nil, false_imp_iff,
      implies_true, and_self]

/-! ## Bytes of texts -/

/-- The bytes are those of a text. -/
def IsText (bs : Bytes) : Prop := ∃ cs, bs = encode cs

/-- The bytes of a text are text. -/
theorem isText_ofText (s : String) : IsText (ofText s) := ⟨s.toList, ofText_eq_encode s⟩

theorem isText_nil : IsText [] := ⟨[], rfl⟩

theorem isText_newline : IsText [newline] := ⟨['\n'], by decide⟩

namespace IsText

variable {bs ds : Bytes}

/-- The text of bytes of a text has those bytes. -/
theorem ofText_text (h : IsText bs) : ofText bs.text = bs := by
  obtain ⟨cs, rfl⟩ := h
  rw [text, chars_encode, ofText_ofList]

/-- Texts in a row are text. -/
theorem append (h : IsText bs) (h' : IsText ds) : IsText (bs ++ ds) := by
  obtain ⟨cs, rfl⟩ := h
  obtain ⟨cs', rfl⟩ := h'
  exact ⟨cs ++ cs', (encode_append cs cs').symm⟩

/-- Bytes of a text can be cut where characters meet. -/
theorem cut (h : IsText bs) {k : Nat} (hk : bs.isBoundary k = true) :
    IsText (bs.take k) ∧ IsText (bs.drop k) := by
  obtain ⟨cs, rfl⟩ := h
  induction cs generalizing k with
  | nil => simp [encode, isText_nil]
  | cons c cs ih =>
    obtain ⟨b, more, hbytes, -⟩ := readChar_utf8EncodeChar c
    have hcons : encode (c :: cs) = b :: (more ++ encode cs) := by
      rw [encode_cons, hbytes, List.cons_append]
    cases k with
    | zero => exact ⟨isText_nil, c :: cs, rfl⟩
    | succ k =>
      rw [hcons] at hk ⊢
      rw [isBoundary, Bool.or_eq_true, List.getElem?_cons_succ] at hk
      have hk := hk.resolve_left (by simp)
      have hchar : IsText (b :: more) := ⟨[c], by rw [encode_cons, hbytes]; simp [encode]⟩
      rcases Nat.lt_or_ge k more.length with hlt | hge
      · -- A cut inside the first character is at a byte that continues it.
        rw [List.getElem?_append_left hlt, List.getElem?_eq_getElem hlt] at hk
        have hcontinues := (utf8EncodeChar_tail hbytes).1 _ (List.getElem_mem hlt)
        simp [hcontinues] at hk
      · rw [List.getElem?_append_right hge] at hk
        obtain ⟨htake, hdrop⟩ := ih (k := k - more.length)
          (by rw [isBoundary, hk, Bool.or_true])
        rw [List.take_succ_cons, List.drop_succ_cons, List.take_append, List.drop_append,
          List.take_of_length_le hge, List.drop_of_length_le hge, List.nil_append]
        exact ⟨hchar.append htake, hdrop⟩

/-- A byte below 128 divides a text. -/
theorem of_ascii {b : UInt8} (hb : b.toNat < 128) (h : IsText (bs ++ b :: ds)) :
    IsText bs ∧ IsText ds := by
  have hboundary : (bs ++ b :: ds).isBoundary bs.length = true := by
    have hcontinuation : isContinuation b = false := by
      rw [Bool.eq_false_iff, ne_eq, isContinuation_iff]
      omega
    simp [isBoundary, hcontinuation]
  obtain ⟨hfront, hrest⟩ := h.cut hboundary
  rw [List.take_left] at hfront
  rw [List.drop_left] at hrest
  refine ⟨hfront, ?_⟩
  obtain ⟨cs, hcs⟩ := hrest
  cases cs with
  | nil => simp [encode] at hcs
  | cons c cs =>
    obtain ⟨x, more, hbytes, -⟩ := readChar_utf8EncodeChar c
    rw [encode_cons, hbytes, List.cons_append] at hcs
    obtain ⟨rfl, hds⟩ := List.cons.inj hcs
    rw [(utf8EncodeChar_tail hbytes).2 hb, List.nil_append] at hds
    exact ⟨cs, hds⟩

/-- Bytes below 128 can be taken off a text. -/
theorem of_ascii_append (hbs : ∀ b ∈ bs, b.toNat < 128) (h : IsText (bs ++ ds)) : IsText ds := by
  induction bs with
  | nil => exact h
  | cons b bs ih =>
    obtain ⟨hb, hbs⟩ := List.forall_mem_cons.1 hbs
    have hfirst : IsText ([] ++ b :: (bs ++ ds)) := h
    exact ih hbs (hfirst.of_ascii hb).2

/-- What stands between two places where characters meet is a text. -/
theorem slice (h : IsText bs) {start stop : Nat} (hstart : bs.isBoundary start = true)
    (hstop : bs.isBoundary stop = true) : IsText (bs.slice start stop) := by
  refine ((h.cut hstop).1.cut ?_).2
  rw [isBoundary, Bool.or_eq_true] at hstart ⊢
  refine hstart.imp_right fun hmeet => ?_
  rw [List.getElem?_take]
  split
  · exact hmeet
  · rfl

end IsText

end StableProps.Bytes

import Mathlib.Data.List.Basic
import StableProps.Patch.Edit

/-!
# Edits as one splice

Edits are applied from the last to the first, each to the bytes that the ones behind it have left.
All that stands in front of an edit is still as it was, so its offsets mean what they mean in the
source. What comes out is the source with all edits made at once: the bytes that no edit replaces
stand in their order, and the new texts stand between them.
-/

namespace StableProps

theorem Bytes.slice_append_drop {bs : Bytes} {start stop : Nat} (h : start ≤ stop) :
    bs.slice start stop ++ bs.drop stop = bs.drop start := by
  have hdrop : bs.drop stop = (bs.drop start).drop (stop - start) := by
    rw [List.drop_drop, Nat.add_sub_cancel' h]
  rw [hdrop, slice, List.drop_take, List.take_append_drop]

theorem Bytes.length_slice {bs : Bytes} {start stop : Nat} (h : stop ≤ bs.length) :
    (bs.slice start stop).length = stop - start := by
  rw [slice, List.length_drop, List.length_take, Nat.min_eq_left h]

namespace Edit

/-- The bytes between the ranges of edits, the first piece starting at an offset. -/
def kept (bs : Bytes) (start : Nat) : List Edit → List Bytes
  | [] => [bs.drop start]
  | e :: rest => bs.slice start e.start :: kept bs e.stop rest

/-- Pieces with texts between them. -/
def interleaved : List Bytes → List Bytes → Bytes
  | piece :: pieces, text :: texts => piece ++ text ++ interleaved pieces texts
  | pieces, _ => pieces.flatten

/-- Whether an edit replaces the byte at an offset. -/
def covers (e : Edit) (p : Nat) : Bool := e.start ≤ p && p < e.stop

/-- The bytes at an offset and behind it that no edit replaces. -/
def untouched (bs : Bytes) (start : Nat) (edits : List Edit) : Bytes :=
  (((bs.drop start).zipIdx start).filter fun x => !edits.any (·.covers x.2)).map (·.1)

/-- Edits leave the bytes in front of them as they are. -/
theorem take_applyAll {edits : List Edit} {bs : Bytes} {p : Nat} (hp : p ≤ bs.length)
    (h : ∀ e ∈ edits, p ≤ e.start) : (applyAll edits bs).take p = bs.take p := by
  induction edits with
  | nil => rfl
  | cons e rest ih =>
    have hrest := ih fun f hf => h f (List.mem_cons_of_mem _ hf)
    have hlength : p ≤ (applyAll rest bs).length := by
      have := congrArg List.length hrest
      rw [List.length_take, List.length_take] at this
      omega
    have hstart := h e List.mem_cons_self
    change (apply e (applyAll rest bs)).take p = bs.take p
    rw [apply, List.append_assoc,
      List.take_append_of_le_length (by rw [List.length_take]; omega), List.take_take,
      Nat.min_eq_left hstart, hrest]

/-- Behind an offset in front of all edits stands what they make of the bytes there. -/
theorem drop_applyAll {edits : List Edit} {bs : Bytes} {p : Nat}
    (horder : edits.Pairwise fun e f => e.stop ≤ f.start)
    (hbounds : ∀ e ∈ edits, e.start ≤ e.stop ∧ e.stop ≤ bs.length)
    (hp : ∀ e ∈ edits, p ≤ e.start) :
    (applyAll edits bs).drop p =
      interleaved (kept bs p edits) (edits.map fun e => Bytes.ofText e.text) := by
  induction edits generalizing p with
  | nil => simp [applyAll, kept, interleaved]
  | cons e rest ih =>
    obtain ⟨hfirst, hrest⟩ := List.pairwise_cons.1 horder
    obtain ⟨hsize, hstop⟩ := hbounds e List.mem_cons_self
    have hstart := hp e List.mem_cons_self
    have hbefore : (applyAll rest bs).take e.start = bs.take e.start := by
      refine take_applyAll (Nat.le_trans hsize hstop) ?_
      intro f hf
      exact Nat.le_trans hsize (hfirst f hf)
    have hbehind := ih hrest (fun f hf => hbounds f (List.mem_cons_of_mem _ hf)) hfirst
    have hp' : p ≤ (bs.take e.start).length := by
      rw [List.length_take]
      omega
    change (apply e (applyAll rest bs)).drop p = _
    rw [apply, hbefore, List.append_assoc, List.drop_append_of_le_length hp', hbehind,
      ← List.append_assoc]
    rfl

/-- The pieces between edits hold the bytes that no edit replaces, in their order. -/
theorem flatten_kept {edits : List Edit} {bs : Bytes} {p : Nat}
    (horder : edits.Pairwise fun e f => e.stop ≤ f.start)
    (hbounds : ∀ e ∈ edits, e.start ≤ e.stop ∧ e.stop ≤ bs.length)
    (hp : ∀ e ∈ edits, p ≤ e.start) : (kept bs p edits).flatten = untouched bs p edits := by
  induction edits generalizing p with
  | nil => simp [kept, untouched]
  | cons e rest ih =>
    obtain ⟨hfirst, hrest⟩ := List.pairwise_cons.1 horder
    obtain ⟨hsize, hstop⟩ := hbounds e List.mem_cons_self
    have hstart := hp e List.mem_cons_self
    -- The bytes fall into those in front of the first range, those in it, and those behind it.
    have hsplit : (bs.drop p).zipIdx p = (bs.slice p e.start).zipIdx p ++
        ((bs.slice e.start e.stop).zipIdx e.start ++ (bs.drop e.stop).zipIdx e.stop) := by
      rw [← Bytes.slice_append_drop hstart, ← Bytes.slice_append_drop hsize, List.zipIdx_append,
        List.zipIdx_append, Bytes.length_slice (Nat.le_trans hsize hstop), Bytes.length_slice hstop,
        Nat.add_sub_cancel' hstart, Nat.add_sub_cancel' hsize]
    have hfront : ((bs.slice p e.start).zipIdx p).filter
        (fun x => !(e :: rest).any (·.covers x.2)) = (bs.slice p e.start).zipIdx p := by
      refine List.filter_eq_self.2 fun x hx => ?_
      have hlt := List.snd_lt_of_mem_zipIdx hx
      rw [Bytes.length_slice (Nat.le_trans hsize hstop)] at hlt
      rw [Bool.not_eq_true', List.any_eq_false]
      intro f hf
      have hf : e.start ≤ f.start := by
        rcases List.mem_cons.1 hf with rfl | hf
        · exact Nat.le_refl _
        · exact Nat.le_trans hsize (hfirst f hf)
      simp only [covers, Bool.and_eq_true, decide_eq_true_eq]
      omega
    have hrange : ((bs.slice e.start e.stop).zipIdx e.start).filter
        (fun x => !(e :: rest).any (·.covers x.2)) = [] := by
      refine List.filter_eq_nil_iff.2 fun x hx => ?_
      have hle := List.le_snd_of_mem_zipIdx hx
      have hlt := List.snd_lt_of_mem_zipIdx hx
      rw [Bytes.length_slice hstop] at hlt
      have hcovers : e.covers x.2 = true := by
        simp only [covers, Bool.and_eq_true, decide_eq_true_eq]
        omega
      simp [hcovers]
    have hbehind : ((bs.drop e.stop).zipIdx e.stop).filter
        (fun x => !(e :: rest).any (·.covers x.2)) =
          ((bs.drop e.stop).zipIdx e.stop).filter fun x => !rest.any (·.covers x.2) := by
      refine List.filter_congr fun x hx => ?_
      have hle := List.le_snd_of_mem_zipIdx hx
      have hcovers : e.covers x.2 = false := by
        simp only [covers, Bool.and_eq_false_iff, decide_eq_false_iff_not]
        omega
      simp [hcovers]
    rw [kept, List.flatten_cons,
      ih hrest (fun f hf => hbounds f (List.mem_cons_of_mem _ hf)) hfirst, untouched, untouched,
      hsplit, List.filter_append, List.filter_append, hfront, hrange, hbehind, List.nil_append,
      List.map_append, List.zipIdx_map_fst]

/-- Edits in order, inside the bytes and without overlaps are made all at once: what comes out are
the pieces between their ranges with the new texts between them. The pieces hold every byte that no
edit replaces once, and in its order. -/
theorem applyAll_eq_interleaved (edits : List Edit) (bs : Bytes)
    (horder : edits.Pairwise fun e f => e.stop ≤ f.start)
    (hbounds : ∀ e ∈ edits, e.start ≤ e.stop ∧ e.stop ≤ bs.length) :
    applyAll edits bs =
        interleaved (kept bs 0 edits) (edits.map fun e => Bytes.ofText e.text) ∧
      (kept bs 0 edits).flatten = untouched bs 0 edits := by
  have hp : ∀ e ∈ edits, 0 ≤ e.start := fun e _ => Nat.zero_le _
  constructor
  · rw [← drop_applyAll horder hbounds hp, List.drop_zero]
  · exact flatten_kept horder hbounds hp

/-- Edits that touch each other at every boundary, the texts having characters of several bytes. -/
def touching : List Edit :=
  [{ start := 1, stop := 1, text := "x" }, { start := 1, stop := 3, text := "ü" },
    { start := 3, stop := 3, text := "" }, { start := 3, stop := 4, text := "yz" }]

theorem applyAll_touching :
    ((touching.Pairwise fun e f => e.stop ≤ f.start) ∧
      ∀ e ∈ touching, e.start ≤ e.stop ∧ e.stop ≤ (Bytes.ofText "aébc").length) ∧
    applyAll touching (Bytes.ofText "aébc") =
      interleaved (kept (Bytes.ofText "aébc") 0 touching)
        (touching.map fun e => Bytes.ofText e.text) ∧
    applyAll touching (Bytes.ofText "aébc") = Bytes.ofText "axüyzc" := by
  have horder : touching.Pairwise fun e f => e.stop ≤ f.start := by decide
  have hbounds : ∀ e ∈ touching, e.start ≤ e.stop ∧ e.stop ≤ (Bytes.ofText "aébc").length := by
    decide +kernel
  exact ⟨⟨horder, hbounds⟩, (applyAll_eq_interleaved touching _ horder hbounds).1,
    by decide +kernel⟩

end Edit

end StableProps

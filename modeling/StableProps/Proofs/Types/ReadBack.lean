import StableProps.Failure
import StableProps.Proofs.Types.Derived
import StableProps.Proofs.Types.Printed

/-!
# Types that are read back

A printed type is a type by the rules of the grammar, if all that is taken over into it can stand
where it does. So whoever reads it by these rules reads a type of the same forms, all the way down.
A form with an operator of its own cannot stand for the element of an array: the brackets are taken
for those of its last operand, and two types of different forms are printed alike.
-/

namespace StableProps

open MonadAttach (CanReturn)
open Reader

namespace TypeExpr

/-- A type that a node stands for, printed and read again by the rules of the grammar, is a type of
the same forms all the way down, if its names are printed as names, its unions and intersections
have several members, and every form that is not looked into is printed where it binds strongly
enough. -/
theorem outline_reread {m : Type → Type} [Monad m] [LawfulMonad m] [MonadAttach m]
    [LawfulMonadAttach m] {bind : Binder m} {read : String → Option Node} {n : Node} {t : TypeExpr}
    (ht : CanReturn (build bind n) t) (hread : n.IsReadBy read t.render)
    (h : t.IsPrintable n .whole) :
    ∃ n', read t.render = some n' ∧
      (∀ again : Binder Id, outline (Id.run (build again n')) = t.outline) ∧
        ∀ t', CanReturn (build bind n') t' → t'.outline = t.outline := by
  obtain ⟨tree, htree, houtline⟩ := isDerivedWherePrintable t (isFlat_of_build ht)
    (isTakenFrom_build n (fun _ hc => hc) t ht) .whole h trivial
  obtain ⟨n', hn', ho⟩ := hread tree htree
  replace ho := ho.trans houtline
  refine ⟨n', hn', fun again => ?_, fun t' ht' => (Node.outline_eq_of_build ht').trans ho⟩
  have hbuild : CanReturn (build again n') (Id.run (build again n')) := rfl
  exact (Node.outline_eq_of_build hbuild).trans ho

end TypeExpr

/-! ## A reader of types -/

/-- Reads a text that is a single type. -/
def readType (language : Language) (text : String) : Option Node :=
  let size := text.utf8ByteSize
  let start : Input :=
    { language, rest := text.toList, offset := 0, size, tail := 0, newline := false,
      comments := [] }
  match (Grammar.level (8 * size + 64)).type start.settled with
  | some (n, stop) =>
    if stop.rest.isEmpty then some (number text (attach n stop.comments.reverse) 0).1 else none
  | none => none

namespace TypeExpr

/-- A type that is printed plainly is read for a type of its outline. -/
theorem exists_readType_render {language : Language} {t : TypeExpr}
    (hlanguage : language.hasTypes = true) (hflat : t.IsFlat) (h : t.IsPlainlyPrinted) :
    ∃ n, readType language t.render = some n ∧ n.outline = t.outline := by
  have hprinted := printed_of_isPlainlyPrinted t hflat h
  have hsize : t.render.utf8ByteSize = String.utf8Len t.render.toList :=
    (String.utf8Len_toList _).symm
  have hstart : At t.render.utf8ByteSize
      ⟨language, t.render.toList, 0, t.render.utf8ByteSize, 0, false, []⟩
      (t.render.toList ++ []) :=
    ⟨(List.append_nil _).symm, hlanguage, rfl, rfl, rfl, by
      rw [List.append_nil, hsize]
      exact Nat.zero_add _⟩
  have hread := hprinted.whole (m := 8 * t.render.utf8ByteSize + 63)
    (by rw [levelsFor, hsize]) (k := []) nofun
  obtain ⟨n, stop, hn, -, ho, hstop⟩ := hread hstart
  refine ⟨(number t.render (attach n []) 0).1, ?_, ?_⟩
  · have hsettled := hstart.settled_eq (opens_append_of_starts hprinted.starts [])
    have htype : (Grammar.level (8 * t.render.utf8ByteSize + 64)).type
        ⟨language, t.render.toList, 0, t.render.utf8ByteSize, 0, false, []⟩ = some (n, stop) := hn
    have hrest : stop.rest = [] := hstop.rest
    rw [readType, hsettled, htype]
    simp only [hrest, hstop.comments, List.isEmpty_nil, if_true, List.reverse_nil]
  · rw [Node.outline_number, attach_nil, ho]

/-- What a derived text is the text of: a flat type that is printed plainly. -/
structure PlainAt (p : Slot) (s : String) (n : Node) (t : TypeExpr) : Prop where
  plain : t.IsPlainlyPrinted
  flat : t.IsFlat
  member : t.IsMemberAt p
  text : t.textAt p = s
  outline : t.outline = n.outline
  form : ∀ q : Slot, n.isOneOf q.groupedKinds = true → n.isOneOf t.kinds = true

private theorem exists_plainAll {p : Slot} {pairs : List (String × Node)}
    (h : ∀ a ∈ pairs, ∃ t, PlainAt p a.1 a.2 t) :
    ∃ ts : List TypeExpr, ts.map (textAt p) = pairs.map Prod.fst ∧
      ts.map TypeExpr.outline = pairs.map (·.2.outline) ∧
        ∀ t ∈ ts, t.IsPlainlyPrinted ∧ t.IsFlat ∧ t.IsMemberAt p := by
  induction pairs with
  | nil => exact ⟨[], rfl, rfl, List.forall_mem_nil _⟩
  | cons a pairs ih =>
    obtain ⟨⟨t, ht⟩, h⟩ := List.forall_mem_cons.1 h
    obtain ⟨ts, htexts, houtlines, hts⟩ := ih h
    exact ⟨t :: ts, by rw [List.map_cons, htexts, ht.text, List.map_cons],
      by rw [List.map_cons, houtlines, ht.outline, List.map_cons],
      List.forall_mem_cons.2 ⟨⟨ht.plain, ht.flat, ht.member⟩, hts⟩⟩

private theorem arePlainlyPrinted_iff {ts : List TypeExpr} :
    ArePlainlyPrinted ts ↔ ∀ t ∈ ts, t.IsPlainlyPrinted := by
  induction ts with
  | nil => simp [ArePlainlyPrinted]
  | cons t ts ih => simp [ArePlainlyPrinted, ih]

/-- All that can be taken over from below a node are words of types and plain strings. -/
def HoldsPlainForms (source : Node) : Prop :=
  ∀ n ∈ source.walk, n.isOneOf Slot.whole.bareKinds = true →
    n.is .predefinedType = true ∧ n.text ∈ predefinedTypes ∨
      n.is .literalType = true ∧ n.outline = .literal "" ∧ IsPlainString n.text.toList

private theorem not_isOneOf_groupedKinds {n : Node} {k : Kind} (h : n.is k = true)
    (hk : ∀ q : Slot, k ∉ q.groupedKinds) (q : Slot) : ¬n.isOneOf q.groupedKinds = true := by
  intro hone
  rw [Node.isOneOf, show n.label = .rule k from eq_of_beq h] at hone
  exact hk q (by simpa using hone)

/-- A type that is printed plainly and needs no parentheses has its text at every place. -/
theorem plainAt_of_is {p : Slot} {n : Node} {k : Kind} {t : TypeExpr} (hplain : t.IsPlainlyPrinted)
    (hflat : t.IsFlat) (ho : t.outline = n.outline) (hunion : t.isUnion = false)
    (hintersection : t.isIntersection = false) (hfunction : t.isFunction = false)
    (h : n.is k = true) (hk : ∀ q : Slot, k ∉ q.groupedKinds) : PlainAt p t.render n t where
  plain := hplain
  flat := hflat
  member := by cases p <;> trivial
  text := textAt_of_not_isGroupedAt (by
    cases p <;> simp [isGroupedAt, isGroupedIn, isGrouped, hunion, hintersection, hfunction])
  outline := ho
  form q hq := absurd hq (not_isOneOf_groupedKinds h hk q)

/-- A name with arguments that are printed plainly is printed plainly. -/
theorem plainAt_reference {p : Slot} {n : Node} {k : Kind} {s : String} {ts : List TypeExpr}
    (hname : IsTypeName s.toList) (h : ∀ t ∈ ts, t.IsPlainlyPrinted ∧ t.IsFlat)
    (ho : n.outline = .reference "" "" (ts.map TypeExpr.outline) none) (hk : n.is k = true)
    (hkind : ∀ q : Slot, k ∉ q.groupedKinds) :
    PlainAt p (render (.reference s s ts none)) n (.reference s s ts none) := by
  refine plainAt_of_is ⟨?_, arePlainlyPrinted_iff.2 fun t ht => (h t ht).1⟩
    (areFlat_iff.2 fun t ht => (h t ht).2) ?_ rfl rfl rfl hk hkind
  · rwa [ite_self]
  · rw [TypeExpr.outline, outlineAll_eq_map, ho]

/-- A flat union or intersection of types that are printed plainly is printed plainly. -/
theorem exists_plainAt_joint {p : Slot} {isUnion : Bool} {n : Node} {ts : List TypeExpr}
    (hlength : 2 ≤ ts.length)
    (h : ∀ t ∈ ts, t.IsPlainlyPrinted ∧ t.IsFlat ∧ t.IsMemberAt (.ofMember isUnion))
    (ho : n.outline = joint isUnion (ts.map TypeExpr.outline))
    (hn : n.is (jointKind isUnion) = true) (hp : p ∈ Slot.holds isUnion) :
    ∃ t, PlainAt p (String.intercalate (String.ofList (jointSeparator isUnion))
      (ts.map (memberText isUnion))) n t := by
  have hplain := arePlainlyPrinted_iff.2 fun t ht => (h t ht).1
  have hflat := areFlat_iff.2 fun t ht => (h t ht).2.1
  have hform : ∀ q : Slot, n.isOneOf q.groupedKinds = true →
      n.isOneOf [jointKind isUnion] = true := fun _ _ =>
    isOneOf_of_is hn (List.mem_singleton_self _)
  cases isUnion with
  | true =>
    obtain rfl := List.mem_singleton.1 hp
    refine ⟨.union "" ts, ⟨hlength, hplain⟩, ⟨fun t ht => (h t ht).2.2, hflat⟩, trivial, ?_, ?_,
      hform⟩
    · rw [textAt_of_not_isGroupedAt rfl, render, renderUnion_eq_map]
      rfl
    · rw [TypeExpr.outline, outlineAll_eq_map, ho]
      rfl
  | false =>
    have hgrouped : (TypeExpr.intersection "" ts).isGroupedAt p = false := by
      rcases List.mem_pair.1 hp with rfl | rfl <;> rfl
    refine ⟨.intersection "" ts, ⟨hlength, hplain⟩, ⟨fun t ht => (h t ht).2.2, hflat⟩, ?_, ?_, ?_,
      hform⟩
    · rcases List.mem_pair.1 hp with rfl | rfl <;> trivial
    · rw [textAt_of_not_isGroupedAt hgrouped, render, renderIntersection_eq_map]
      rfl
    · rw [TypeExpr.outline, outlineAll_eq_map, ho]
      rfl

/-- A type of a form that stands at a place in parentheses is put in parentheses there. -/
theorem isGroupedAt_of_kinds {p : Slot} {n : Node} {t : TypeExpr} (ht : n.isOneOf t.kinds = true)
    (hp : n.isOneOf p.groupedKinds = true) : t.isGroupedAt p = true ∧ t.IsMemberAt p := by
  rw [Node.isOneOf] at ht hp
  cases hlabel : n.label with
  | rule k =>
    simp only [hlabel, List.contains_iff_mem] at ht hp
    revert ht hp
    cases p <;> cases t <;> simp +contextual [kinds, Slot.groupedKinds, Slot.looseKinds,
      Slot.operatorKinds, isGroupedAt, isGroupedIn, isGrouped, isFunction, isUnion, isIntersection,
      IsMemberAt]
  | token text => simp [hlabel] at hp

/-- A text that is derived from names, words and plain strings is that of a type which is printed
plainly. -/
theorem exists_plainAt {source n : Node} {p : Slot} {s : String} (hsource : HoldsPlainForms source)
    (h : Derives source p s n) : ∃ t, PlainAt p s n t := by
  induction h with
  | @taken p n below fits =>
    have hwhole : n.isOneOf Slot.whole.bareKinds = true :=
      isOneOf_mono fits (by cases p <;> simp [Slot.bareKinds])
    rcases hsource n below hwhole with ⟨hkind, htext⟩ | ⟨hkind, ho, htext⟩
    · exact ⟨.keyword n.text, plainAt_of_is (t := .keyword n.text) (.inl htext) trivial
        (Node.outline_predefinedType hkind).symm rfl rfl rfl hkind (by rintro (_ | _) <;> decide)⟩
    · exact ⟨.literal n.text, plainAt_of_is (t := .literal n.text) htext trivial ho.symm rfl rfl rfl
        hkind (by rintro (_ | _) <;> decide)⟩
  | @name p s n isName tree =>
    have ho := Node.outline_of_isName tree
    have hrender : render (.reference s s [] none) = s := by
      rw [render, ite_self]
      rfl
    have hplain {k : Kind} (hkind : n.is k = true) (hk : ∀ q : Slot, k ∉ q.groupedKinds) :
        PlainAt p (render (.reference s s [] none)) n (.reference s s [] none) :=
      plainAt_reference isName (List.forall_mem_nil _) ho hkind hk
    rw [hrender] at hplain
    rcases tree with hkind | hkind
    · exact ⟨_, hplain hkind (by rintro (_ | _) <;> decide)⟩
    · exact ⟨_, hplain hkind (by rintro (_ | _) <;> decide)⟩
  | @null p n tree =>
    exact ⟨.keyword "null", plainAt_of_is (t := .keyword "null") (.inr (by decide)) trivial
      (Node.outline_emptyValue (.inl tree)).symm rfl rfl rfl (k := .literalType) rfl
      (by rintro (_ | _) <;> decide)⟩
  | @undefined p n tree =>
    exact ⟨.keyword "undefined", plainAt_of_is (t := .keyword "undefined") (.inr (by decide))
      trivial (Node.outline_emptyValue (.inr tree)).symm rfl rfl rfl (k := .literalType) rfl
      (by rintro (_ | _) <;> decide)⟩
  | @generic p s n first rest isName tree each ih =>
    obtain ⟨ts, htexts, houtlines, hts⟩ := exists_plainAll ih
    have hne : ts ≠ [] := by
      rintro rfl
      cases htexts
    obtain ⟨hfirst, hrest⟩ := List.forall_mem_cons.1 fun a ha => (each a ha).isNamed
    have hrender : render (.reference s s ts none) =
        s ++ "<" ++ String.intercalate ", " ((first :: rest).map Prod.fst) ++ ">" := by
      rw [render_reference hne, ← htexts, spelled, ite_self]
      rfl
    rw [← hrender]
    refine ⟨_, plainAt_reference isName (fun t ht => ⟨(hts t ht).1, (hts t ht).2.1⟩) ?_
      (k := .genericType) rfl (by rintro (_ | _) <;> decide)⟩
    rw [Node.outline_genericType, filter_argumentNodes hfirst (List.forall_mem_map.2 hrest),
      houtlines, List.map_cons, List.map_cons, List.map_map]
    rfl
  | @array p s n element ih =>
    obtain ⟨t, ht⟩ := ih
    refine ⟨.array "" t, ht.text ▸ plainAt_of_is (t := .array "" t) ht.plain ht.flat ?_ rfl rfl rfl
      (k := .arrayType) rfl (by rintro (_ | _) <;> decide)⟩
    rw [TypeExpr.outline, ht.outline, Node.outline_arrayType element.isNamed]
  | @joint p isUnion first rest place several each ih =>
    obtain ⟨ts, htexts, houtlines, hts⟩ := exists_plainAll ih
    obtain ⟨hfirst, hrest⟩ := List.forall_mem_cons.1 fun a ha => (each a ha).isNamed
    have hlength : ts.length = rest.length + 1 := by simpa using congrArg List.length htexts
    have hmembers : ts.map (textAt (.ofMember isUnion)) = ts.map (memberText isUnion) := by
      cases isUnion <;> rfl
    have hflat : (ts.map TypeExpr.outline).flatMap (sameForm isUnion) =
        ts.map TypeExpr.outline := by
      rw [List.flatMap_map]
      refine (List.flatMap_congr fun t ht => sameForm_outline ?_).trans List.map_eq_flatMap.symm
      have hmember := (hts t ht).2.2
      cases isUnion <;> exact hmember
    have hpos := List.length_pos_iff.2 several
    rw [← htexts, hmembers]
    refine exists_plainAt_joint (by omega) hts ?_ (is_joinedTree (by simpa using several)) place
    rw [outline_joinedTree hfirst (List.forall_mem_map.2 hrest) (by simpa using several), ← hflat,
      houtlines, ← List.map_cons, List.map_map]
    rfl
  | @group p s n inside weak ih =>
    obtain ⟨t, ht⟩ := ih
    obtain ⟨hgrouped, hmember⟩ := isGroupedAt_of_kinds (ht.form p weak) weak
    refine ⟨t, ht.plain, ht.flat, hmember, ?_, ?_, ?_⟩
    · rw [textAt, hgrouped, ← ht.text]
      rfl
    · rw [Node.outline_parenthesizedType rfl inside.isNamed, ht.outline]
    · exact fun q hq => absurd hq
        (not_isOneOf_groupedKinds (k := .parenthesizedType) rfl (by rintro (_ | _) <;> decide) q)

/-- Where all that is taken over are words of types and plain strings, types are read by the rules
of the grammar. -/
theorem isReadBy_readType {language : Language} (hlanguage : language.hasTypes = true)
    {source : Node} (hsource : HoldsPlainForms source) (s : String) :
    source.IsReadBy (readType language) s := by
  intro tree htree
  obtain ⟨t, ht⟩ := exists_plainAt hsource htree
  obtain ⟨n, hn, ho⟩ := exists_readType_render hlanguage ht.flat ht.plain
  rw [← ht.text]
  exact ⟨n, hn, ho.trans ht.outline⟩

/-- A union of a literal and a name keeps its parentheses under the brackets of an array. -/
theorem outline_reread_arrayOfUnion : ∃ n', readType .tsx "('a' | B)[]" = some n' ∧
    ∀ again : Binder Id, outline (Id.run (build again n')) =
      .array "" (.union "" [.literal "", .reference "" "" [] none]) := by
  let literal : Node := ⟨4, .rule .literalType, none, 1, 4, "'a'",
    [⟨5, .rule .stringLiteral, none, 1, 4, "'a'", []⟩]⟩
  let union : Node := ⟨3, .rule .unionType, none, 1, 8, "'a' | B",
    [literal, ⟨6, .token "|", none, 5, 6, "|", []⟩,
      ⟨7, .rule .typeIdentifier, none, 7, 8, "B", []⟩]⟩
  let array : Node := ⟨0, .rule .arrayType, none, 0, 11, "('a' | B)[]",
    [⟨1, .rule .parenthesizedType, none, 0, 9, "('a' | B)",
      [⟨2, .token "(", none, 0, 1, "(", []⟩, union, ⟨8, .token ")", none, 8, 9, ")", []⟩]⟩,
      ⟨9, .token "[", none, 9, 10, "[", []⟩, ⟨10, .token "]", none, 10, 11, "]", []⟩]⟩
  have hbuild : CanReturn (build unbound array) (.array "('a' | B)[]" (.union "'a' | B"
      [.literal "'a'", .reference "B" "B" [] none])) := rfl
  have hplain : HoldsPlainForms array := by
    intro n hn hkind
    have hforms : array.walk.filter (·.isOneOf Slot.whole.bareKinds) = [literal] := rfl
    obtain rfl := List.mem_singleton.1 (hforms ▸ List.mem_filter.2 ⟨hn, hkind⟩)
    exact .inr ⟨rfl, rfl, singleQuote, by decide, ['a'], by decide, by decide⟩
  have hname : IsTypeName "B".toList := ⟨['B'], [], rfl, by decide, by decide, nofun⟩
  obtain ⟨n', hread, hagain, -⟩ := outline_reread hbuild
    (isReadBy_readType (show Language.tsx.hasTypes = true from rfl) hplain _)
    ⟨by decide, trivial, ⟨hname, trivial⟩, trivial⟩
  exact ⟨n', hread, hagain⟩

/-- The keys of a type, put in parentheses to be the elements of an array, are printed like the keys
of an array. So whoever reads types, not all of them are read back. -/
theorem not_exists_kindName_reread : ¬∃ read : String → Option Node, ∀ (source : String) (n : Node),
    n ∈ (parse .typescript source).walk → n.isOneOf [.arrayType, .indexTypeQuery] = true →
      ∃ n', read (Id.run (build unbound n)).render = some n' ∧
        (Id.run (build unbound n')).kindName = (Id.run (build unbound n)).kindName := by
  rintro ⟨read, hread⟩
  let shown (n : Node) : String × String :=
    let t := Id.run (build unbound n)
    (t.render, t.kindName)
  have helements : ((parse .typescript "type T=(keyof A)[];type U=keyof A[]").walk.find?
      (·.is .arrayType)).map shown = some ("keyof A[]", "array") := by decide +kernel
  have hkeys : ((parse .typescript "type T=(keyof A)[];type U=keyof A[]").walk.find?
      fun n => n.is .indexTypeQuery && n.text == "keyof A[]").map shown =
        some ("keyof A[]", "raw") := by decide +kernel
  have hsource := hread "type T=(keyof A)[];type U=keyof A[]"
  -- the tree has been looked at above and must not be computed again
  generalize (parse .typescript "type T=(keyof A)[];type U=keyof A[]").walk = nodes
    at helements hkeys hsource
  obtain ⟨n, hn, hshown⟩ := Option.map_eq_some_iff.1 helements
  obtain ⟨k, hk, hshown'⟩ := Option.map_eq_some_iff.1 hkeys
  obtain ⟨hrender, hkind⟩ := Prod.mk.inj hshown
  obtain ⟨hrender', hkind'⟩ := Prod.mk.inj hshown'
  have harray : n.is .arrayType = true := List.find?_some (p := fun n => Node.is n .arrayType) hn
  have hquery :=
    List.find?_some (p := fun n => Node.is n .indexTypeQuery && n.text == "keyof A[]") hk
  obtain ⟨n', hreads, heq⟩ :=
    hsource n (List.mem_of_find?_eq_some hn) (isOneOf_of_is harray (by decide))
  obtain ⟨k', hreads', heq'⟩ := hsource k (List.mem_of_find?_eq_some hk)
    (isOneOf_of_is (Bool.and_eq_true_iff.1 hquery).1 (by decide))
  rw [hrender] at hreads
  rw [hrender', hreads] at hreads'
  obtain rfl := Option.some.inj hreads'
  exact absurd ((hkind.symm.trans heq.symm).trans (heq'.trans hkind')) (by decide)

end TypeExpr

end StableProps

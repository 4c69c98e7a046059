import StableProps.Proofs.Props.Callback

/-!
# Replacing aliases

A name for an alias whose value is a name again is replaced by that name, over and over, until one
comes that stands for no name or for an alias that was passed. An alias is known again by its module
and its name. Where these tell the aliases on the way apart, the last name is one where following
names from it ends again: it stands for no name, or it leads back to itself. So there is nothing
left to be replaced. In an inner scope a module can have another alias of the same name, which is
taken for the one that was passed.
-/

namespace StableProps

open Relation (ReflTransGen TransGen)

namespace TypeExpr

variable {t u : TypeExpr} {d : TypeDeclaration}

/-- The declaration of a reference without arguments. -/
def plain? : TypeExpr → Option TypeDeclaration
  | .reference _ _ [] d => d
  | _ => none

/-- Whether a type is a reference. -/
def isReference : TypeExpr → Bool
  | .reference .. => true
  | _ => false

/-- A plain reference has no arguments. -/
private theorem exists_eq_of_plain? (h : t.plain? = some d) :
    ∃ text name, t = .reference text name [] (some d) := by
  cases t with
  | reference text name arguments declaration =>
    cases arguments with
    | nil => exact ⟨text, name, congrArg _ h⟩
    | cons => cases h
  | _ => cases h

private theorem isUnion_eq_false_of_isReference (h : t.isReference = true) : t.isUnion = false := by
  cases t <;> first | rfl | cases h

/-- The declaration of a plain reference was found. -/
private theorem IsBuilt.of_plain? {Found : TypeDeclaration → Prop} (h : t.IsBuilt Found)
    (hd : t.plain? = some d) : Found d := by
  obtain ⟨text, name, rfl⟩ := exists_eq_of_plain? hd
  exact (isBuilt_iff.1 h).1.declaration d rfl

end TypeExpr

namespace Project

variable {p : Project (Except Failure)} {r : Resolver} {i : ModuleIndex} {value : Focus}
variable {s t u : TypeExpr} {d e : TypeDeclaration} {ds : List TypeDeclaration}
variable {fuel : Nat} {opened : Opened}

/-- A declaration is not read, or a name in a known module refers to it. -/
def Found (p : Project (Except Failure)) (r : Resolver) (d : TypeDeclaration) : Prop :=
  d.place = none ∨ p.Refers r d

/-- An alias that was found is one that a name refers to. -/
theorem Found.refers (h : p.Found r d) (hd : p.IsAliasOf d i value) : p.Refers r d := by
  obtain ⟨-, place, hplace, -⟩ := hd
  refine h.resolve_left ?_
  rw [hplace.1]
  nofun

/-- The value of an alias is built with what is found in the project. -/
theorem StandsFor.isBuilt_found (h : p.StandsFor d u) (hclosed : p.Closed (p.Knows r))
    (hd : p.Refers r d) (hlookups : p.FailsByLookups) : u.IsBuilt (p.Found r) :=
  (h.isBuilt hclosed hd hlookups).imp fun _ => .inr

/-! ## One step -/

/-- A type is a name for an alias whose value is a reference again. -/
def Renames (p : Project (Except Failure)) (t u : TypeExpr) : Prop :=
  u.isReference = true ∧ ∃ d, t.plain? = some d ∧ p.StandsFor d u

/-- An alias is followed to its value unless it was opened before. -/
private theorem followAlias_of_places {f : Focus} (ht : t.plain? = some d) (hkind : d.kind = .alias)
    (hf : p.Places d i f) :
    p.followAlias (fuel + 1) opened t =
      if d.identity ∈ opened then .ok t
      else match f.child? .value with
        | some value => p.typeAt i value >>= fun u =>
          if u.isReference = true then p.followAlias fuel (d.identity :: opened) u else .ok t
        | none => .ok t := by
  obtain ⟨hplace, path, hpath, hindex⟩ := hf
  obtain ⟨text, name, rfl⟩ := TypeExpr.exists_eq_of_plain? ht
  simp only [followAlias, hkind, hplace, hpath, hindex, List.contains_iff_mem]
  split
  · rfl
  · cases f.child? .value with
    | none => rfl
    | some value =>
      have hvalue : ∀ u, (match u with
          | .reference .. => p.followAlias fuel (d.identity :: opened) u
          | _ => .ok (.reference text name [] (some d))) =
          if u.isReference = true then p.followAlias fuel (d.identity :: opened) u
            else .ok (.reference text name [] (some d)) := by
        intro u
        cases u <;> rfl
      exact bind_congr (x := p.typeAt i value) hvalue

/-- A name for an alias is replaced by its value if that is a reference. -/
theorem followAlias_of_isAliasOf (ht : t.plain? = some d) (hd : p.IsAliasOf d i value) :
    p.followAlias (fuel + 1) opened t =
      if d.identity ∈ opened then .ok t
      else p.typeAt i value >>= fun u =>
        if u.isReference = true then p.followAlias fuel (d.identity :: opened) u else .ok t := by
  obtain ⟨hkind, place, hplace, hvalue⟩ := hd
  rw [followAlias_of_places ht hkind hplace, hvalue]

/-- Any other type is left as it is. -/
theorem followAlias_of_not_isAliasOf (hclosed : p.Closed (p.Knows r))
    (hbuilt : t.IsBuilt (p.Found r))
    (h : ∀ d, t.plain? = some d → ∀ i value, ¬p.IsAliasOf d i value) :
    p.followAlias (fuel + 1) opened t = .ok t := by
  by_cases hplaces : ∃ d i f, t.plain? = some d ∧ d.kind = .alias ∧ p.Places d i f
  · obtain ⟨d, i, f, ht, hkind, hf⟩ := hplaces
    rw [followAlias_of_places ht hkind hf]
    split
    · rfl
    · split
      next value hvalue => exact absurd ⟨hkind, f, hf, hvalue⟩ (h d ht i value)
      next => rfl
  · unfold followAlias
    split
    next text name d =>
      split
      next place path hkind hplace hpath =>
        have hnotNone : d.place ≠ none := by simp [hplace]
        obtain ⟨i, f, hf, -⟩ :=
          ((hbuilt.of_plain? rfl).resolve_left hnotNone).exists_places hclosed hnotNone
        exact absurd ⟨d, i, f, rfl, hkind, hf⟩ hplaces
      · rfl
    · rfl

/-- Where following names ends whatever was opened: the type is no name for an alias, or the value
of the alias is no reference. -/
def Ends (p : Project (Except Failure)) (t : TypeExpr) : Prop :=
  (∀ fuel opened, p.followAlias (fuel + 1) opened t = .ok t) ∧ ∀ u, ¬p.Renames t u

/-- An alias whose value is no reference ends the way. -/
private theorem ends_of_typeAt (ht : t.plain? = some d) (hd : p.IsAliasOf d i value)
    (hvalue : p.typeAt i value = .ok u) (hu : ¬u.isReference = true) : p.Ends t := by
  refine ⟨fun fuel opened => ?_, ?_⟩
  · rw [followAlias_of_isAliasOf ht hd, hvalue]
    split
    · rfl
    · exact if_neg hu
  · rintro v ⟨hv, e, he, hstands⟩
    obtain rfl := Option.some.inj (ht.symm.trans he)
    exact hu (hstands.unique ⟨i, value, hd, hvalue⟩ ▸ hv)

/-- One step leaves a type as it is, or comes to the value of an alias. -/
theorem ends_or_exists_isAliasOf (hclosed : p.Closed (p.Knows r)) (hbuilt : t.IsBuilt (p.Found r)) :
    p.Ends t ∨ ∃ d i value, t.plain? = some d ∧ p.Refers r d ∧ p.IsAliasOf d i value := by
  by_cases h : ∀ d, t.plain? = some d → ∀ i value, ¬p.IsAliasOf d i value
  · refine .inl ⟨fun fuel opened => followAlias_of_not_isAliasOf hclosed hbuilt h, ?_⟩
    rintro u ⟨-, d, hd, i, value, halias, -⟩
    exact h d hd i value halias
  · push Not at h
    obtain ⟨d, hd, i, value, halias⟩ := h
    exact .inr ⟨d, i, value, hd, (hbuilt.of_plain? hd).refers halias, halias⟩

/-! ## Names that are followed -/

/-- The aliases that are passed on the way from a type to another one, last first. No two of them
have the same module and name. -/
inductive Trail (p : Project (Except Failure)) (s : TypeExpr) :
    List TypeDeclaration → TypeExpr → Prop where
  | start : Trail p s [] s
  | step {ds : List TypeDeclaration} {t u : TypeExpr} {d : TypeDeclaration}
      (before : Trail p s ds t) (plain : t.plain? = some d) (value : p.StandsFor d u)
      (reference : u.isReference = true) (isNew : d.identity ∉ ds.map TypeDeclaration.identity) :
      Trail p s (d :: ds) u

/-- Names that stand for names lead from a type to a name for the alias, the value of which is given
by a node of a module. -/
def LeadsToAlias (p : Project (Except Failure)) (t : TypeExpr) (d : TypeDeclaration)
    (i : ModuleIndex) (value : Focus) : Prop :=
  p.IsAliasOf d i value ∧ ∃ u, ReflTransGen p.Renames t u ∧ u.plain? = some d

/-- A type is reached again by following names from itself, or is no name for an alias whose value is
a reference. -/
def IsSettled (p : Project (Except Failure)) (t : TypeExpr) : Prop :=
  TransGen p.Renames t t ∨ ¬∃ u, p.Renames t u

/-- The aliases to which names lead from a type are told apart by their modules and names. -/
def TellsAliasesApart (p : Project (Except Failure)) (t : TypeExpr) : Prop :=
  ∀ d i v e j w, p.LeadsToAlias t d i v → p.LeadsToAlias t e j w →
    d.identity = e.identity → d = e

/-- Names lead only to what is found in the project. -/
theorem isBuilt_of_reaches (hclosed : p.Closed (p.Knows r)) (hlookups : p.FailsByLookups)
    (hs : s.IsBuilt (p.Found r)) (h : ReflTransGen p.Renames s t) : t.IsBuilt (p.Found r) := by
  induction h with
  | refl => exact hs
  | tail _ hrenames ih =>
    obtain ⟨-, d, hd, hstands⟩ := hrenames
    have hrefers := (ih.of_plain? hd).resolve_left
      (Option.isSome_iff_ne_none.1 hstands.isSome_place)
    exact hstands.isBuilt_found hclosed hrefers hlookups

/-- An alias that a type leads to is one that a name refers to. -/
theorem LeadsToAlias.refers (h : p.LeadsToAlias s d i value) (hclosed : p.Closed (p.Knows r))
    (hlookups : p.FailsByLookups) (hs : s.IsBuilt (p.Found r)) : p.Refers r d := by
  obtain ⟨halias, u, hreaches, hplain⟩ := h
  exact ((isBuilt_of_reaches hclosed hlookups hs hreaches).of_plain? hplain).refers halias

/-- Where names stand for one declaration each, all aliases are told apart. -/
theorem NamesTypesOnce.tellsAliasesApart (h : p.NamesTypesOnce r) (hclosed : p.Closed (p.Knows r))
    (hlookups : p.FailsByLookups) (hs : s.IsBuilt (p.Found r)) : p.TellsAliasesApart s := by
  intro d i v e j w hd he hidentity
  have hplace {d : TypeDeclaration} {i : ModuleIndex} {value : Focus}
      (hd : p.LeadsToAlias s d i value) : d.place.isSome = true := by
    obtain ⟨⟨-, place, hplace, -⟩, -⟩ := hd
    exact hplace.isSome_place
  exact h d e (hd.refers hclosed hlookups hs) (he.refers hclosed hlookups hs) (hplace hd)
    (hplace he) hidentity

namespace Trail

/-- A trail goes from name to name. -/
private theorem reaches (h : p.Trail s ds t) : ReflTransGen p.Renames s t := by
  induction h with
  | start => exact .refl
  | step _ plain value reference _ ih => exact ih.tail ⟨reference, _, plain, value⟩

/-- A trail passes no alias twice. -/
theorem nodup (h : p.Trail s ds t) : (ds.map TypeDeclaration.identity).Nodup := by
  induction h with
  | start => exact List.nodup_nil
  | step _ _ _ _ isNew ih => exact List.nodup_cons.2 ⟨isNew, ih⟩

/-- Each alias on a trail is one that the type leads to. -/
private theorem exists_leadsToAlias (h : p.Trail s ds t) (hd : d ∈ ds) :
    ∃ i value, p.LeadsToAlias s d i value := by
  induction h with
  | start => cases hd
  | step before plain value _ _ ih =>
    rcases List.mem_cons.1 hd with rfl | hd
    · obtain ⟨i, node, halias, -⟩ := value
      exact ⟨i, node, halias, _, before.reaches, plain⟩
    · exact ih hd

/-- Following names goes along the way, unless an alias on it was opened before. -/
theorem followAlias_eq (h : p.Trail s ds t) (hopened : ∀ d ∈ ds, d.identity ∉ opened) :
    p.followAlias (fuel + ds.length) opened s =
      p.followAlias fuel (ds.map TypeDeclaration.identity ++ opened) t := by
  induction h generalizing fuel with
  | start => rfl
  | @step ds t u d before plain value reference isNew ih =>
    obtain ⟨hd, hds⟩ := List.forall_mem_cons.1 hopened
    obtain ⟨i, node, halias, hnode⟩ := value
    have hnew : d.identity ∉ ds.map TypeDeclaration.identity ++ opened := by
      rw [List.mem_append, not_or]
      exact ⟨isNew, hd⟩
    rw [List.length_cons, ← Nat.add_assoc, Nat.add_right_comm, ih hds,
      followAlias_of_isAliasOf plain halias, if_neg hnew, hnode]
    exact if_pos reference

/-- From an alias on the way the rest of the way leads on. -/
theorem exists_after (h : p.Trail s ds t) (hd : d ∈ ds) :
    ∃ u after before, ds = after ++ d :: before ∧ p.StandsFor d u ∧ u.isReference = true ∧
      p.Trail u after t := by
  induction h with
  | start => cases hd
  | @step ds t v e before plain value reference isNew ih =>
    rcases List.mem_cons.1 hd with rfl | hd
    · exact ⟨v, [], ds, rfl, value, reference, .start⟩
    · obtain ⟨u, after, front, rfl, hu, hreference, htrail⟩ := ih hd
      refine ⟨u, e :: after, front, rfl, hu, hreference, htrail.step plain value reference ?_⟩
      rw [List.map_append, List.mem_append, not_or] at isNew
      exact isNew.1

end Trail

section

variable {identities : Finset (String × String)} (hclosed : p.Closed (p.Knows r))
variable (hlookups : p.FailsByLookups)
variable (hmem : ∀ d i v, p.Refers r d → p.IsAliasOf d i v → d.identity ∈ identities)

include hclosed hlookups hmem

/-- With enough steps, names are followed to where this ends, or to an alias that was passed. -/
theorem exists_trail_of_followAlias (fuel : Nat) (ds : List TypeDeclaration) (t : TypeExpr)
    (htrail : p.Trail s ds t) (hs : s.IsBuilt (p.Found r))
    (hfuel : (identities \ (ds.map TypeDeclaration.identity).toFinset).card < fuel)
    (h : p.followAlias fuel (ds.map TypeDeclaration.identity) t = .ok u) :
    ∃ ds', p.Trail s ds' u ∧ (p.Ends u ∨ ∃ d i value, u.plain? = some d ∧ p.IsAliasOf d i value ∧
      d.identity ∈ ds'.map TypeDeclaration.identity) := by
  induction fuel generalizing ds t with
  | zero => omega
  | succ fuel ih =>
    have hbuilt := isBuilt_of_reaches hclosed hlookups hs htrail.reaches
    rcases ends_or_exists_isAliasOf hclosed hbuilt with hends | ⟨d, i, value, ht, hrefers, halias⟩
    · obtain rfl := Except.ok.inj ((hends.1 _ _).symm.trans h)
      exact ⟨ds, htrail, .inl hends⟩
    · rw [followAlias_of_isAliasOf ht halias] at h
      split at h
      next hold =>
        obtain rfl := Except.ok.inj h
        exact ⟨ds, htrail, .inr ⟨d, i, value, ht, halias, hold⟩⟩
      next hnew =>
        obtain ⟨v, hv, h⟩ := bind_eq_ok.1 h
        split at h
        next hreference =>
          exact ih (d :: ds) v (htrail.step ht ⟨i, value, halias, hv⟩ hreference hnew)
            (card_sdiff_cons_lt (hmem d i value hrefers halias) hnew hfuel) h
        next hnot =>
          obtain rfl := Except.ok.inj h
          exact ⟨ds, htrail, .inl (ends_of_typeAt ht halias hv hnot)⟩

/-- With enough steps, more of them make no difference. -/
theorem followAlias_eq_of_card_lt (fuel fuel' : Nat) (opened : Opened) (t : TypeExpr)
    (ht : t.IsBuilt (p.Found r)) (hfuel : (identities \ opened.toFinset).card < fuel)
    (hfuel' : (identities \ opened.toFinset).card < fuel') :
    p.followAlias fuel opened t = p.followAlias fuel' opened t := by
  induction fuel generalizing fuel' opened t with
  | zero => omega
  | succ fuel ih =>
    obtain ⟨fuel', rfl⟩ : ∃ n, fuel' = n + 1 := ⟨fuel' - 1, by omega⟩
    rcases ends_or_exists_isAliasOf hclosed ht with hends | ⟨d, i, value, hplain, hrefers, halias⟩
    · rw [hends.1, hends.1]
    · rw [followAlias_of_isAliasOf hplain halias, followAlias_of_isAliasOf hplain halias]
      split
      · rfl
      next hnew =>
        refine bind_congr_of_ok fun u hu => ?_
        have hstands : p.StandsFor d u := ⟨i, value, halias, hu⟩
        have hmem := hmem d i value hrefers halias
        rw [ih fuel' (d.identity :: opened) u (hstands.isBuilt_found hclosed hrefers hlookups)
          (card_sdiff_cons_lt hmem hnew hfuel) (card_sdiff_cons_lt hmem hnew hfuel')]

/-- No more aliases are passed than there are. -/
theorem Trail.length_le (h : p.Trail s ds t) (hs : s.IsBuilt (p.Found r)) :
    ds.length ≤ identities.card := by
  have hsubset : (ds.map TypeDeclaration.identity).toFinset ⊆ identities := by
    intro k hk
    obtain ⟨d, hd, rfl⟩ := List.mem_map.1 (List.mem_toFinset.1 hk)
    obtain ⟨i, value, hleads⟩ := h.exists_leadsToAlias hd
    exact hmem d i value (hleads.refers hclosed hlookups hs) hleads.1
  calc ds.length = (ds.map TypeDeclaration.identity).toFinset.card := by
        rw [List.toFinset_card_of_nodup h.nodup, List.length_map]
    _ ≤ identities.card := Finset.card_le_card hsubset

/-- Where aliases are told apart, following names from where it ended ends there. -/
theorem followAlias_of_followAlias (hs : s.IsBuilt (p.Found r)) (hapart : p.TellsAliasesApart s)
    (hfuel : identities.card < fuel) (h : p.followAlias fuel [] s = .ok u) :
    p.followAlias fuel [] u = .ok u ∧ ReflTransGen p.Renames s u ∧ p.IsSettled u := by
  obtain ⟨ds, htrail, hends | ⟨d, i, value, hplain, halias, hold⟩⟩ :=
    exists_trail_of_followAlias hclosed hlookups hmem fuel [] s .start hs (by simpa using hfuel) h
  · obtain ⟨n, rfl⟩ : ∃ n, fuel = n + 1 := ⟨fuel - 1, by omega⟩
    exact ⟨hends.1 n [], htrail.reaches, .inr fun ⟨v, hv⟩ => hends.2 v hv⟩
  · -- The alias that was passed is the one that comes again.
    obtain ⟨e, he, hidentity⟩ := List.mem_map.1 hold
    obtain ⟨j, w, hleads⟩ := htrail.exists_leadsToAlias he
    obtain rfl := hapart e j w d i value hleads ⟨halias, u, htrail.reaches, hplain⟩ hidentity
    obtain ⟨v, after, before, rfl, hv, hreference, hafter⟩ := htrail.exists_after he
    have hrenames : p.Renames u v := ⟨hreference, e, hplain, hv⟩
    refine ⟨?_, htrail.reaches, .inl (.head' hrenames hafter.reaches)⟩
    have hnew : ∀ d ∈ after, d.identity ∉ [e.identity] := by
      intro d hd heq
      have hnodup := htrail.nodup
      rw [List.map_append, List.nodup_append] at hnodup
      exact hnodup.2.2 d.identity (List.mem_map_of_mem hd) e.identity List.mem_cons_self
        (List.mem_singleton.1 heq)
    obtain ⟨n, rfl⟩ : ∃ n, fuel = n + 1 + after.length + 1 := by
      have hlength := htrail.length_le hclosed hlookups hmem hs
      rw [List.length_append, List.length_cons] at hlength
      exact ⟨fuel - (after.length + 2), by omega⟩
    obtain ⟨k, node, hnode, htype⟩ := hv
    rw [followAlias_of_isAliasOf hplain hnode, if_neg List.not_mem_nil, htype]
    refine (if_pos hreference).trans ?_
    rw [hafter.followAlias_eq hnew, followAlias_of_isAliasOf hplain hnode,
      if_pos (List.mem_append_right _ List.mem_cons_self)]

omit hmem

/-- Following names fails only at an alias to which they lead. -/
theorem exists_of_followAlias_eq_error (fuel : Nat) (opened : Opened) (t : TypeExpr)
    (ht : t.IsBuilt (p.Found r)) {f : Failure} (h : p.followAlias fuel opened t = .error f) :
    ∃ d i value, p.LeadsToAlias t d i value ∧ p.typeAt i value = .error f := by
  induction fuel generalizing opened t with
  | zero => cases h
  | succ fuel ih =>
    rcases ends_or_exists_isAliasOf hclosed ht with hends | ⟨d, i, value, hplain, hrefers, halias⟩
    · rw [hends.1] at h
      cases h
    · rw [followAlias_of_isAliasOf hplain halias] at h
      split at h
      · cases h
      · rcases bind_eq_error.1 h with hvalue | ⟨u, hu, h⟩
        · exact ⟨d, i, value, ⟨halias, t, .refl, hplain⟩, hvalue⟩
        · have hstands : p.StandsFor d u := ⟨i, value, halias, hu⟩
          split at h
          next hreference =>
            obtain ⟨e, j, w, ⟨he, v, hreaches, hv⟩, hvalue⟩ :=
              ih _ u (hstands.isBuilt_found hclosed hrefers hlookups) h
            have hstep : p.Renames t u := ⟨hreference, d, hplain, hstands⟩
            exact ⟨e, j, w, ⟨he, v, hreaches.head hstep, hv⟩, hvalue⟩
          next => cases h

end

/-! ## Members of unions -/

/-- A type that is no union is followed as a whole. -/
private theorem collapse_of_isUnion_eq_false (h : t.isUnion = false) :
    p.collapse t = p.followAlias p.bound [] t := by
  cases t <;> first | rfl | cases h

private theorem collapseAll_eq_mapM (ts : List TypeExpr) :
    p.collapseAll ts = ts.mapM p.collapse := by
  induction ts with
  | nil => rfl
  | cons t ts ih => rw [collapseAll, List.mapM_cons, ih]

/-- The members of a union are followed one by one. -/
private theorem collapse_union (text : String) (members : List TypeExpr) :
    p.collapse (.union text members) =
      members.mapM p.collapse >>= fun us => .ok (TypeExpr.unionOf us) := by
  rw [collapse, collapseAll_eq_mapM]
  rfl

/-- Replacing the aliases of a type fails only if it does so for one of its members. -/
theorem exists_of_collapse_eq_error {f : Failure} (h : p.collapse t = .error f) :
    ∃ s ∈ t.unionMembers, p.collapse s = .error f := by
  cases t with
  | union text members =>
    rw [collapse_union] at h
    rcases bind_eq_error.1 h with h | ⟨us, -, h⟩
    · exact exists_of_mapM_eq_error h
    · cases h
  | _ => exact ⟨_, List.mem_singleton_self _, h⟩

/-- A union of types that are left as they are is left as it is. -/
theorem collapse_unionOf {us : List TypeExpr} (hplain : ∀ u ∈ us, u.isUnion = false)
    (h : ∀ u ∈ us, p.collapse u = .ok u) :
    p.collapse (TypeExpr.unionOf us) = .ok (TypeExpr.unionOf us) := by
  have hmembers : TypeExpr.membersOf us = distinctBy TypeExpr.render us :=
    TypeExpr.membersOf_of_forall_isUnion_eq_false hplain
  have hsubset : ∀ u ∈ TypeExpr.membersOf us, u ∈ us := by
    rw [hmembers]
    exact fun u => mem_of_mem_distinctBy
  rcases TypeExpr.isUnionOf_unionOf us with hone | ⟨text, hunion⟩
  · refine h _ (hsubset _ ?_)
    rw [hone]
    exact List.mem_singleton_self _
  · have hagain : TypeExpr.unionOf (TypeExpr.membersOf us) = TypeExpr.unionOf us := by
      refine TypeExpr.unionOf_eq_of_membersOf_eq ?_
      rw [TypeExpr.membersOf_of_forall_isUnion_eq_false fun u hu => hplain u (hsubset u hu),
        hmembers, distinctBy_distinctBy]
    have hleft : (TypeExpr.membersOf us).mapM p.collapse = .ok (TypeExpr.membersOf us) :=
      mapM_eq_ok_self fun u hu => h u (hsubset u hu)
    calc p.collapse (TypeExpr.unionOf us)
        = (TypeExpr.membersOf us).mapM p.collapse >>= fun us => .ok (TypeExpr.unionOf us) := by
          rw [hunion, collapse_union]
      _ = .ok (TypeExpr.unionOf us) := by
          rw [hleft, ← hagain]
          rfl

/-- What is left of a type is the union of what is left of its members. -/
theorem exists_eq_unionOf_of_collapse (ht : t.HasPlainMembers) (hu : p.collapse t = .ok u) :
    ∃ us, u = TypeExpr.unionOf us ∧
      ∀ v ∈ us, v.isUnion = false ∧ ∃ s ∈ t.unionMembers, p.collapse s = .ok v := by
  have hplain {s v : TypeExpr} (hs : s ∈ t.unionMembers) (hv : p.collapse s = .ok v) :
      v.isUnion = false := by
    rw [collapse_of_isUnion_eq_false (ht s hs)] at hv
    exact isUnion_of_followAlias (m := Except Failure) (ht s hs) hv
  cases t with
  | union text members =>
    rw [collapse_union] at hu
    obtain ⟨us, hus, hu⟩ := bind_eq_ok.1 hu
    refine ⟨us, (Except.ok.inj hu).symm, fun v hv => ?_⟩
    obtain ⟨s, hs, hcollapse⟩ := exists_of_mem_mapM (m := Except Failure) hus hv
    exact ⟨hplain hs hcollapse, s, hs, hcollapse⟩
  | _ =>
    have hself := hplain (List.mem_singleton_self _) hu
    refine ⟨[u], (TypeExpr.unionOf_singleton hself).symm, fun v hv => ?_⟩
    obtain rfl := List.mem_singleton.1 hv
    exact ⟨hself, _, List.mem_singleton_self _, hu⟩

/-- Each member of what is left of a type is left of one of its members. -/
theorem exists_of_mem_unionMembers_collapse (ht : t.HasPlainMembers) (hu : p.collapse t = .ok u)
    {v : TypeExpr} (hv : v ∈ u.unionMembers) : ∃ s ∈ t.unionMembers, p.collapse s = .ok v := by
  obtain ⟨us, rfl, hus⟩ := exists_eq_unionOf_of_collapse ht hu
  rw [TypeExpr.unionMembers_unionOf fun w hw =>
    TypeExpr.hasPlainMembers_of_isUnion_eq_false (hus w hw).1,
    TypeExpr.membersOf_of_forall_isUnion_eq_false fun w hw => (hus w hw).1] at hv
  exact (hus v (mem_of_mem_distinctBy hv)).2

/-- The types that are built from syntax and read off the library, all types in them, and unions of
such types. -/
inductive Makes (p : Project (Except Failure)) (r : Resolver) : TypeExpr → Prop where
  | built {i : ModuleIndex} {context : Focus} {n : Node} {t u : TypeExpr} (known : p.Knows r i)
      (place : context.IsIn i.source.root) (build : TypeExpr.build (p.binder i context) n = .ok t)
      (mem : u ∈ t.within) : Makes p r u
  | member {i : ModuleIndex} {context : Focus} {n : Node} {x : TypeMember} {t u : TypeExpr}
      (known : p.Knows r i) (place : context.IsIn i.source.root)
      (build : TypeExpr.buildMember (p.binder i context) n = .ok x) (type : x.type? = some t)
      (mem : u ∈ t.within) : Makes p r u
  | library {text : String} {t u : TypeExpr} (type : Intrinsic.type? text = some t)
      (mem : u ∈ t.within) : Makes p r u
  | keyword (name : String) : Makes p r (.keyword name)
  | union {ts : List TypeExpr} (types : ∀ t ∈ ts, Makes p r t) : Makes p r (TypeExpr.unionOf ts)

/-- What a declared type is made of is built. -/
theorem Makes.isBuilt (h : p.Makes r t) (hlookups : p.FailsByLookups) :
    t.IsBuilt (p.Found r) := by
  induction h with
  | @built i context n t u known place build mem =>
    have hbuilt := TypeExpr.isBuilt_build .returns (findsOnly_binder known hlookups place) n
    exact ((hbuilt.holds _ build).of_mem_within mem).imp fun _ => .inr
  | @member i context n x t u known place build type mem =>
    have hbuilt := TypeExpr.isBuilt_buildMember (L := .returns)
      (findsOnly_binder known hlookups place) n
    exact ((hbuilt.holds x build t type).of_mem_within mem).imp fun _ => .inr
  | library type mem =>
    exact ((Intrinsic.isBuilt_of_type? type).of_mem_within mem).imp fun _ => .inl
  | keyword name =>
    have hbuilt : TypeExpr.IsBuiltFrom (fun _ => True) (p.Found r) (.keyword name) :=
      TypeExpr.isBuiltFrom_keyword name
    exact hbuilt.isBuilt
  | union types ih => exact TypeExpr.isBuilt_unionOf ih

end Project

namespace Workspace

variable {r : Resolver} {source : Source} {p : Planner (Except Failure)} {t : TypeExpr}

/-- An alias that a name refers to is one of all the aliases and interfaces there are. -/
private theorem identity_mem_of_isAliasOf (h : (fresh r).planner source = .ok p)
    (d : TypeDeclaration) (i : ModuleIndex) (value : Focus) (hd : p.project.Refers r d)
    (halias : p.project.IsAliasOf d i value) : d.identity ∈ r.typeIdentities p.main := by
  obtain ⟨hkind, place, hplace, -⟩ := halias
  exact identity_mem_typeIdentities h hd hplace.isSome_place (.inl hkind)

/-- A member of a type is followed by itself, as if it were the whole type. If the aliases that it
leads to are told apart, it ends where following it again ends. -/
theorem isSettled_of_collapse (h : (fresh r).planner source = .ok p) (ht : p.project.Makes r t)
    {s v : TypeExpr} (hs : s ∈ t.unionMembers) (hapart : p.project.TellsAliasesApart s)
    (hv : p.project.collapse s = .ok v) :
    p.project.collapse v = .ok v ∧ ReflTransGen p.project.Renames s v ∧ p.project.IsSettled v := by
  have hbuilt := ht.isBuilt (failsByLookups h)
  have hunion := hbuilt.hasPlainMembers s hs
  rw [Project.collapse_of_isUnion_eq_false hunion] at hv
  rw [Project.collapse_of_isUnion_eq_false
    (Project.isUnion_of_followAlias (m := Except Failure) hunion hv)]
  exact Project.followAlias_of_followAlias (closed_knows h) (failsByLookups h)
    (identity_mem_of_isAliasOf h) (hbuilt.of_mem_unionMembers hs) hapart
    (card_typeIdentities_lt_bound h) hv

/-- The aliases of a type are replaced after a bounded number of steps, unless the value of one to
which names lead from a member of the type cannot be built, because of a malformed manifest or a
path without a name. If modules and names tell the aliases apart to which they lead, nothing is left
to be replaced in the result: each member of it is reached from a member of the type, and it leads
back to itself or is no name for an alias whose value is a reference. -/
theorem collapse_collapse (h : (fresh r).planner source = .ok p) (ht : p.project.Makes r t) :
    (∀ s ∈ t.unionMembers, ∀ fuel, p.project.bound ≤ fuel →
      p.project.followAlias fuel [] s = p.project.collapse s) ∧
    (∀ f, p.project.collapse t = .error f → f.IsOfLookup ∧
      ∃ s ∈ t.unionMembers, ∃ d i value, p.project.LeadsToAlias s d i value ∧
        p.project.typeAt i value = .error f) ∧
    ∀ u, p.project.collapse t = .ok u →
      (∀ s ∈ t.unionMembers, p.project.TellsAliasesApart s) →
        p.project.collapse u = .ok u ∧
        (∀ v ∈ u.unionMembers, (∃ s ∈ t.unionMembers, ReflTransGen p.project.Renames s v) ∧
          p.project.IsSettled v) ∧
        (t.isReference = true → ReflTransGen p.project.Renames t u ∧ p.project.IsSettled u) := by
  have hclosed := closed_knows h
  have hlookups := failsByLookups h
  have hcard := card_typeIdentities_lt_bound h
  have hbuilt := ht.isBuilt hlookups
  have hplain := hbuilt.hasPlainMembers
  refine ⟨fun s hs fuel hfuel => ?_, fun f hf => ?_, fun u hu hapart =>
    ⟨?_, fun v hv => ?_, fun hreference => ?_⟩⟩
  · rw [Project.collapse_of_isUnion_eq_false (hplain s hs)]
    exact Project.followAlias_eq_of_card_lt hclosed hlookups (identity_mem_of_isAliasOf h) fuel _ []
      s (hbuilt.of_mem_unionMembers hs) (by simpa using hcard.trans_le hfuel) (by simpa using hcard)
  · obtain ⟨s, hs, hfails⟩ := Project.exists_of_collapse_eq_error hf
    rw [Project.collapse_of_isUnion_eq_false (hplain s hs)] at hfails
    obtain ⟨d, i, value, hleads, hvalue⟩ := Project.exists_of_followAlias_eq_error hclosed
      hlookups _ [] s (hbuilt.of_mem_unionMembers hs) hfails
    exact ⟨Project.failsByLookup_typeAt hlookups i value f hvalue, s, hs, d, i, value, hleads,
      hvalue⟩
  · obtain ⟨us, rfl, hus⟩ := Project.exists_eq_unionOf_of_collapse hplain hu
    refine Project.collapse_unionOf (fun v hv => (hus v hv).1) fun v hv => ?_
    obtain ⟨-, s, hs, hcollapse⟩ := hus v hv
    exact (isSettled_of_collapse h ht hs (hapart s hs) hcollapse).1
  · obtain ⟨s, hs, hcollapse⟩ := Project.exists_of_mem_unionMembers_collapse hplain hu hv
    obtain ⟨-, hreaches, hends⟩ := isSettled_of_collapse h ht hs (hapart s hs) hcollapse
    exact ⟨⟨s, hs, hreaches⟩, hends⟩
  · have hself : t ∈ t.unionMembers := by
      rw [TypeExpr.unionMembers_of_isUnion_eq_false
        (TypeExpr.isUnion_eq_false_of_isReference hreference)]
      exact List.mem_singleton_self t
    exact (isSettled_of_collapse h ht hself (hapart t hself) hu).2

end Workspace

/-- Two modules with aliases that stand for each other. -/
def aliasCycle : FileTree := .ofEntries [
  ("c.ts", "import \x7b D \x7d from './d';\nexport type B = D;\n"),
  ("d.ts", "import \x7b B \x7d from './c';\nexport type D = B;\n")]

/-- Aliases that lead into the cycle. -/
def aliasesOfCycle : Source :=
  .parsed (FileTree.resolve (.ofText "a.ts")) .typescript
    ("import \x7b B \x7d from './c';\ntype E = B;\ntype F = E;\n" ++
      "type U = E | string | B;\n")

set_option maxRecDepth 100000 in
private theorem planner_aliasesOfCycle :
    ∃ p, (Workspace.fresh ⟨aliasCycle, none⟩).planner aliasesOfCycle = .ok p ∧
      (((⟨aliasCycle, none⟩ : Resolver).knownPaths p.main).map Path.text).Nodup ∧
      p.main.source.IsFlat ∧
      (∀ file ∈ aliasCycle.files, ∀ s, Source.ofText file.2 file.1 none = .ok s → s.IsFlat) ∧
      (∃ f, p.main.valueOf? "F" = some f ∧ ∃ t, p.project.typeAt p.main f = .ok t ∧
        (t.isReference = true ∧ t.render = "E") ∧
        ∃ u, p.project.collapse t = .ok u ∧ u.render = "B") ∧
      ∃ f, p.main.valueOf? "U" = some f ∧ ∃ t, p.project.typeAt p.main f = .ok t ∧
        t.render = "E | string | B" ∧
        ∃ u, p.project.collapse t = .ok u ∧ u.render = "B | string" := by
  decide +kernel

/-- From both aliases names lead into the cycle. The name where it is left is the same one again. -/
theorem Workspace.collapse_aliasesOfCycle :
    ∃ p, (fresh ⟨aliasCycle, none⟩).planner aliasesOfCycle = .ok p ∧
      (∃ t u, p.project.Makes ⟨aliasCycle, none⟩ t ∧ t.render = "E" ∧ u.render = "B" ∧
        (∀ s ∈ t.unionMembers, p.project.TellsAliasesApart s) ∧
        p.project.collapse t = .ok u ∧ p.project.collapse u = .ok u ∧
        ReflTransGen p.project.Renames t u ∧ p.project.IsSettled u) ∧
      ∃ t u, p.project.Makes ⟨aliasCycle, none⟩ t ∧ t.render = "E | string | B" ∧
        u.render = "B | string" ∧ (∀ s ∈ t.unionMembers, p.project.TellsAliasesApart s) ∧
        p.project.collapse t = .ok u ∧ p.project.collapse u = .ok u ∧
        ∀ v ∈ u.unionMembers, p.project.IsSettled v := by
  obtain ⟨p, hp, hpaths, hflat, hfiles, ⟨f, hf, t, ht, ⟨hreference, htext⟩, u, hu, hutext⟩,
    g, hg, t', ht', htext', u', hu', hutext'⟩ := planner_aliasesOfCycle
  have hmain := knows_main hp
  have hlookups := failsByLookups hp
  have hnames := namesTypesOnce_of_isFlat hp hpaths hflat hfiles
  have hmakes {name : String} {f : Focus} (hf : p.main.valueOf? name = some f) {t : TypeExpr}
      (ht : p.project.typeAt p.main f = .ok t) : p.project.Makes ⟨aliasCycle, none⟩ t :=
    .built hmain (ModuleIndex.isIn_of_valueOf? hmain.ofSource hf) ht (TypeExpr.mem_within_self t)
  have hapart {t : TypeExpr} (ht : p.project.Makes ⟨aliasCycle, none⟩ t) :
      ∀ s ∈ t.unionMembers, p.project.TellsAliasesApart s := fun s hs =>
    hnames.tellsAliasesApart (closed_knows hp) hlookups
      ((ht.isBuilt hlookups).of_mem_unionMembers hs)
  have hone := (collapse_collapse hp (hmakes hf ht)).2.2 u hu (hapart (hmakes hf ht))
  have hboth := (collapse_collapse hp (hmakes hg ht')).2.2 u' hu' (hapart (hmakes hg ht'))
  exact ⟨p, hp, ⟨t, u, hmakes hf ht, htext, hutext, hapart (hmakes hf ht), hu, hone.1,
    hone.2.2 hreference⟩, t', u', hmakes hg ht', htext', hutext', hapart (hmakes hg ht'), hu',
    hboth.1, fun v hv => (hboth.2.1 v hv).2⟩

/-- An alias in an inner function stands for one of the outer function, which stands for another one
there that has the name of the first. -/
def innerAlias : Source :=
  .parsed (FileTree.resolve (.ofText "a.ts")) .typescript
    ("function f() \x7b\n  type B = A;\n  type A = C;\n  function g() \x7b\n" ++
      "    type A = B;\n    let x: A;\n  \x7d\n\x7d\ntype C = number;\n")

set_option maxRecDepth 100000 in
private theorem planner_innerAlias :
    ∃ p, (Workspace.fresh ⟨.ofEntries [], none⟩).planner innerAlias = .ok p ∧
      ∃ f, p.main.source.root.focus.walk.find? (·.node.is .annotatedType) = some f ∧
        ∃ t, p.project.typeAt p.main f = .ok t ∧ ∃ u, p.project.collapse t = .ok u ∧
          u.render = "A" ∧ ∃ v, p.project.collapse u = .ok v ∧ v.render = "C" := by
  decide +kernel

/-- The alias of the outer function is taken for the one of the inner function, which was passed. It
is replaced only when this is done again. -/
theorem Workspace.not_forall_collapse_collapse :
    ¬∀ (r : Resolver) (source : Source) (p : Planner (Except Failure)),
      (fresh r).planner source = .ok p → ∀ t, p.project.Makes r t →
        ∀ u, p.project.collapse t = .ok u →
          ∃ v, p.project.collapse u = .ok v ∧ v.render = u.render := by
  intro h
  obtain ⟨p, hp, f, hf, t, ht, u, hu, hutext, v, hv, hvtext⟩ := planner_innerAlias
  have hin : f.IsIn p.main.source.root := Focus.mem_walk_iff.1 (List.mem_of_find?_eq_some hf)
  have hmakes : p.project.Makes ⟨.ofEntries [], none⟩ t :=
    .built (knows_main hp) hin ht (TypeExpr.mem_within_self t)
  obtain ⟨w, hw, htext⟩ := h _ _ p hp t hmakes u hu
  obtain rfl := Except.ok.inj (hv.symm.trans hw)
  rw [hutext, hvtext] at htext
  exact absurd htext (by decide)

end StableProps

import StableProps.Proofs.Module.DeclaredTypes
import StableProps.Props.Callable

/-!
# Callable types are a least set

Aliases may refer to themselves, through unions, intersections and other aliases. What is callable
is the least set of types that is closed under the rules for functions, objects, names and
declarations. The search for it carries along the declarations that it passed and takes a type that
comes back to one of them for not callable. As the same declaration is then judged further out, this
hides nothing.
-/

namespace StableProps

open TypeExpr (MentionsOnly)

namespace Project

variable {p : Project (Except Failure)} {r : Resolver} {d : TypeDeclaration} {t u : TypeExpr}
variable {passed : Opened}

/-- A declaration is an alias, the value of which is given by a node of a module. -/
def IsAliasOf (p : Project (Except Failure)) (d : TypeDeclaration) (i : ModuleIndex)
    (value : Focus) : Prop :=
  d.kind = .alias ∧ ∃ place, p.Places d i place ∧ place.child? .value = some value

/-- A declaration is an alias whose value is the type. -/
def StandsFor (p : Project (Except Failure)) (d : TypeDeclaration) (t : TypeExpr) : Prop :=
  ∃ i value, p.IsAliasOf d i value ∧ p.typeAt i value = .ok t

/-- A declaration is an interface with a call signature in its body. -/
def HasCallSignature (p : Project (Except Failure)) (d : TypeDeclaration) : Prop :=
  d.kind = .interface ∧ ∃ i place body, p.Places d i place ∧
    place.node.child? .body = some body ∧ ∃ c ∈ body.children, c.is .callSignature = true

/-- The least set of types that is closed under the rules for callable types. -/
inductive Callable (p : Project (Except Failure)) : TypeExpr → Prop where
  | function {text : String} {parameters : List TypeMember} {returns : Option TypeExpr} :
      Callable p (.function text parameters returns)
  | object {text : String} {members : List TypeMember} : Callable p (.object text members true)
  | intersection {text : String} {parts : List TypeExpr} {t : TypeExpr} (mem : t ∈ parts)
      (part : Callable p t) : Callable p (.intersection text parts)
  | union {text : String} {parts : List TypeExpr} (all : ∀ t ∈ parts, Callable p t) :
      Callable p (.union text parts)
  | named {text name : String} {arguments : List TypeExpr} {d : Option TypeDeclaration}
      (known : isCallableName (lastPart '.' name) = true) :
      Callable p (.reference text name arguments d)
  | aliased {text name : String} {arguments : List TypeExpr} {d : TypeDeclaration} {t : TypeExpr}
      (value : p.StandsFor d t) (rest : Callable p t) :
      Callable p (.reference text name arguments (some d))
  | signature {text name : String} {arguments : List TypeExpr} {d : TypeDeclaration}
      (signature : p.HasCallSignature d) : Callable p (.reference text name arguments (some d))

/-- A type that is found to be callable without opening a declaration twice, or one of those
given. -/
inductive CallableAround (p : Project (Except Failure)) : Opened → TypeExpr → Prop where
  | function {passed : Opened} {text : String} {parameters : List TypeMember}
      {returns : Option TypeExpr} : CallableAround p passed (.function text parameters returns)
  | object {passed : Opened} {text : String} {members : List TypeMember} :
      CallableAround p passed (.object text members true)
  | intersection {passed : Opened} {text : String} {parts : List TypeExpr} {t : TypeExpr}
      (mem : t ∈ parts) (part : CallableAround p passed t) :
      CallableAround p passed (.intersection text parts)
  | union {passed : Opened} {text : String} {parts : List TypeExpr}
      (all : ∀ t ∈ parts, CallableAround p passed t) :
      CallableAround p passed (.union text parts)
  | named {passed : Opened} {text name : String} {arguments : List TypeExpr}
      {d : Option TypeDeclaration} (known : isCallableName (lastPart '.' name) = true) :
      CallableAround p passed (.reference text name arguments d)
  | aliased {passed : Opened} {text name : String} {arguments : List TypeExpr}
      {d : TypeDeclaration} {t : TypeExpr} (isNew : d.identity ∉ passed) (value : p.StandsFor d t)
      (rest : CallableAround p (d.identity :: passed) t) :
      CallableAround p passed (.reference text name arguments (some d))
  | signature {passed : Opened} {text name : String} {arguments : List TypeExpr}
      {d : TypeDeclaration} (isNew : d.identity ∉ passed) (signature : p.HasCallSignature d) :
      CallableAround p passed (.reference text name arguments (some d))

/-- A declaration makes its name callable, without opening those given. -/
def DeclaresCallable (p : Project (Except Failure)) (passed : Opened) (d : TypeDeclaration) :
    Prop :=
  d.identity ∉ passed ∧
    ((∃ t, p.StandsFor d t ∧ p.CallableAround (d.identity :: passed) t) ∨ p.HasCallSignature d)

/-- The declarations that the search for a callable type can come to. -/
inductive LeadsToType (p : Project (Except Failure)) : TypeExpr → TypeDeclaration → Prop where
  | mentioned {t : TypeExpr} {d : TypeDeclaration} (mem : d ∈ t.mentioned) : LeadsToType p t d
  | value {t u : TypeExpr} {d e : TypeDeclaration} (mem : d ∈ t.mentioned)
      (value : p.StandsFor d u) (rest : LeadsToType p u e) : LeadsToType p t e

/-! ## Around declarations -/

/-- A declaration stands for one type. -/
theorem StandsFor.unique (ht : p.StandsFor d t) (hu : p.StandsFor d u) : t = u := by
  obtain ⟨i, value, ⟨-, place, hplace, hvalue⟩, ht⟩ := ht
  obtain ⟨j, value', ⟨-, place', hplace', hvalue'⟩, hu⟩ := hu
  obtain ⟨rfl, rfl⟩ := hplace.unique hplace'
  obtain rfl := Option.some.inj (hvalue.symm.trans hvalue')
  exact Except.ok.inj (ht.symm.trans hu)

/-- A declaration that stands for a type has a place. -/
theorem StandsFor.isSome_place (h : p.StandsFor d t) : d.place.isSome = true := by
  obtain ⟨i, value, ⟨-, place, hplace, -⟩, -⟩ := h
  exact hplace.isSome_place

private theorem StandsFor.kind_eq (h : p.StandsFor d t) : d.kind = .alias := by
  obtain ⟨i, value, ⟨hkind, -⟩, -⟩ := h
  exact hkind

/-- A declaration with a call signature has a place. -/
theorem HasCallSignature.isSome_place (h : p.HasCallSignature d) : d.place.isSome = true := by
  obtain ⟨-, i, place, body, hplace, -⟩ := h
  exact hplace.isSome_place

/-- The value of an alias is built with declarations of the project. -/
theorem StandsFor.isBuilt (h : p.StandsFor d t) (hclosed : p.Closed (p.Knows r))
    (hd : p.Refers r d) (hlookups : p.FailsByLookups) : t.IsBuilt (p.Refers r) := by
  obtain ⟨i, value, ⟨-, place, hplace, hvalue⟩, ht⟩ := h
  obtain ⟨hi, hin⟩ := hd.of_places hclosed hplace
  exact isBuilt_of_typeAt hi hlookups (hin.child hvalue) ht

/-- The value of an alias mentions declarations of the project. -/
theorem StandsFor.mentionsOnly (h : p.StandsFor d t) (hclosed : p.Closed (p.Knows r))
    (hd : p.Refers r d) (hlookups : p.FailsByLookups) : t.MentionsOnly (p.Refers r) :=
  (h.isBuilt hclosed hd hlookups).mentionsOnly

/-- An object is callable by its own signatures. -/
private theorem callableAround_object {text : String} {members : List TypeMember}
    {callable : Bool} :
    p.CallableAround passed (.object text members callable) ↔ callable = true := by
  constructor
  · rintro (_ | _)
    rfl
  · rintro rfl
    exact .object

/-- An intersection is callable if one of its parts is. -/
private theorem callableAround_intersection {text : String} {parts : List TypeExpr} :
    p.CallableAround passed (.intersection text parts) ↔
      ∃ t ∈ parts, p.CallableAround passed t := by
  constructor
  · intro h
    cases h with
    | intersection mem part => exact ⟨_, mem, part⟩
  · rintro ⟨t, ht, h⟩
    exact .intersection ht h

/-- A union is callable if all of its members are. -/
private theorem callableAround_union {text : String} {parts : List TypeExpr} :
    p.CallableAround passed (.union text parts) ↔ ∀ t ∈ parts, p.CallableAround passed t := by
  constructor
  · intro h
    cases h with
    | union all => exact all
  · exact .union

/-- A reference is callable by its name or by its declaration. -/
private theorem callableAround_reference {text name : String} {arguments : List TypeExpr}
    {d : Option TypeDeclaration} :
    p.CallableAround passed (.reference text name arguments d) ↔
      isCallableName (lastPart '.' name) = true ∨
        ∃ e, d = some e ∧ p.DeclaresCallable passed e := by
  constructor
  · intro h
    cases h with
    | named known => exact .inl known
    | aliased isNew value rest => exact .inr ⟨_, rfl, isNew, .inl ⟨_, value, rest⟩⟩
    | signature isNew signature => exact .inr ⟨_, rfl, isNew, .inr signature⟩
  · rintro (hname | ⟨e, rfl, hnew, ⟨t, hvalue, hrest⟩ | hsignature⟩)
    · exact .named hname
    · exact .aliased hnew hvalue hrest
    · exact .signature hnew hsignature

/-- What is found around more declarations is found around fewer of them. -/
theorem CallableAround.mono {passed' : Opened} (h : p.CallableAround passed t)
    (hsub : passed' ⊆ passed) : p.CallableAround passed' t := by
  induction h generalizing passed' with
  | function => exact .function
  | object => exact .object
  | intersection mem _ ih => exact .intersection mem (ih hsub)
  | union _ ih => exact .union fun t ht => ih t ht hsub
  | named known => exact .named known
  | aliased isNew value _ ih =>
    exact .aliased (fun hmem => isNew (hsub hmem)) value (ih (List.cons_subset_cons _ hsub))
  | signature isNew signature => exact .signature (fun hmem => isNew (hsub hmem)) signature

/-- What is callable after more was passed is callable after less. -/
theorem DeclaresCallable.mono {passed' : Opened} (h : p.DeclaresCallable passed d)
    (hsub : passed' ⊆ passed) : p.DeclaresCallable passed' d := by
  refine ⟨fun hmem => h.1 (hsub hmem), h.2.imp_left ?_⟩
  rintro ⟨t, hvalue, hrest⟩
  exact ⟨t, hvalue, hrest.mono (List.cons_subset_cons _ hsub)⟩

/-- What is callable around what was passed is callable. -/
theorem CallableAround.callable (h : p.CallableAround passed t) : p.Callable t := by
  induction h with
  | function => exact .function
  | object => exact .object
  | intersection mem _ ih => exact .intersection mem ih
  | union _ ih => exact .union ih
  | named known => exact .named known
  | aliased _ value _ ih => exact .aliased value ih
  | signature _ signature => exact .signature signature

/-- A type that is callable either is so without a declaration, or makes this declaration callable
by itself. -/
theorem callableAround_or (hnames : p.NamesTypesOnce r) (hclosed : p.Closed (p.Knows r))
    (hlookups : p.FailsByLookups) (hd : p.Refers r d) (hplace : d.place.isSome = true)
    (hnew : d.identity ∉ passed) (ht : t.MentionsOnly (p.Refers r))
    (h : p.CallableAround passed t) :
    p.CallableAround (d.identity :: passed) t ∨ p.DeclaresCallable passed d := by
  induction h with
  | function => exact .inl .function
  | object => exact .inl .object
  | intersection mem _ ih =>
    exact (ih hnew (TypeExpr.mentionsOnly_intersection.1 ht _ mem)).imp_left (.intersection mem)
  | @union passed text parts _ ih =>
    by_cases hdeclares : p.DeclaresCallable passed d
    · exact .inr hdeclares
    · refine .inl (.union fun t hmem => ?_)
      exact (ih t hmem hnew (TypeExpr.mentionsOnly_union.1 ht t hmem)).resolve_right hdeclares
  | named known => exact .inl (.named known)
  | @aliased passed text name arguments e u isNew value rest ih =>
    have he := (TypeExpr.mentionsOnly_reference.1 ht).1 e rfl
    by_cases heq : e.identity = d.identity
    · -- The declaration is opened here, around no more than what was passed before.
      obtain rfl := hnames e d he hd value.isSome_place hplace heq
      exact .inr ⟨hnew, .inl ⟨u, value, rest⟩⟩
    · have hnew' : d.identity ∉ e.identity :: passed := by simp [Ne.symm heq, hnew]
      rcases ih hnew' (value.mentionsOnly hclosed he hlookups) with hclear | hdeclares
      · have hswap := (List.Perm.swap d.identity e.identity passed).subset
        exact .inl (.aliased (by simp [heq, isNew]) value (hclear.mono hswap))
      · exact .inr (hdeclares.mono (List.subset_cons_self _ _))
  | @signature passed text name arguments e isNew signature =>
    have he := (TypeExpr.mentionsOnly_reference.1 ht).1 e rfl
    by_cases heq : e.identity = d.identity
    · obtain rfl := hnames e d he hd signature.isSome_place hplace heq
      exact .inr ⟨hnew, .inr signature⟩
    · exact .inl (.signature (by simp [heq, isNew]) signature)

/-- What is callable at all is so without opening a declaration twice. -/
theorem callableAround_nil_iff (hnames : p.NamesTypesOnce r) (hclosed : p.Closed (p.Knows r))
    (hlookups : p.FailsByLookups) (ht : t.MentionsOnly (p.Refers r)) :
    p.CallableAround [] t ↔ p.Callable t := by
  refine ⟨CallableAround.callable, fun h => ?_⟩
  induction h with
  | function => exact .function
  | object => exact .object
  | intersection mem _ ih =>
    exact .intersection mem (ih (TypeExpr.mentionsOnly_intersection.1 ht _ mem))
  | union _ ih =>
    exact .union fun t hmem => ih t hmem (TypeExpr.mentionsOnly_union.1 ht t hmem)
  | named known => exact .named known
  | @aliased text name arguments d u value _ ih =>
    have hd := (TypeExpr.mentionsOnly_reference.1 ht).1 d rfl
    have hu := value.mentionsOnly hclosed hd hlookups
    rcases callableAround_or hnames hclosed hlookups hd value.isSome_place List.not_mem_nil hu
      (ih hu) with hclear | hdeclares
    · exact .aliased List.not_mem_nil value hclear
    · exact callableAround_reference.2 (.inr ⟨d, rfl, hdeclares⟩)
  | signature signature => exact .signature List.not_mem_nil signature

end Project

/-! ## The search inside a type -/

namespace TypeExpr

variable {p : Project (Except Failure)} {passed : Opened}
variable {jump jump' : TypeDeclaration → Except Failure Bool}

/-- What is said of a declaration is whether it makes its name callable. -/
def Judges (p : Project (Except Failure)) (passed : Opened)
    (jump : TypeDeclaration → Except Failure Bool) (d : TypeDeclaration) : Prop :=
  ∀ b, jump d = .ok b → (b = true ↔ p.DeclaresCallable passed d)

private theorem callableVia_reference (text name : String) (arguments : List TypeExpr)
    (d : Option TypeDeclaration) : callableVia jump (.reference text name arguments d) =
      if isCallableName (lastPart '.' name) then .ok true
      else match d with
        | some d => jump d
        | none => .ok false := rfl

mutual

/-- The search through a type is right if it is right about the declarations. -/
theorem callableVia_iff (t : TypeExpr) (ht : t.MentionsOnly (Judges p passed jump)) {b : Bool}
    (h : t.callableVia jump = .ok b) : b = true ↔ p.CallableAround passed t := by
  match t with
  | .function .. =>
    obtain rfl := Except.ok.inj h
    exact ⟨fun _ => .function, fun _ => rfl⟩
  | .object .. =>
    obtain rfl := Except.ok.inj h
    exact Project.callableAround_object.symm
  | .intersection _ parts =>
    rw [Project.callableAround_intersection]
    exact anyCallable_iff parts (mentionsOnly_intersection.1 ht) h
  | .union _ parts =>
    rw [Project.callableAround_union]
    exact allCallable_iff parts (mentionsOnly_union.1 ht) h
  | .reference _ name _ d =>
    rw [Project.callableAround_reference]
    rw [callableVia_reference] at h
    split at h
    next hknown =>
      obtain rfl := Except.ok.inj h
      simp [hknown]
    next hknown =>
      cases d with
      | none =>
        obtain rfl := Except.ok.inj h
        simp [hknown]
      | some d =>
        rw [(mentionsOnly_reference.1 ht).1 d rfl b h]
        simp [hknown]
  | .array .. | .tuple .. | .keyword .. | .literal .. | .indexed .. | .query .. | .raw .. =>
    obtain rfl := Except.ok.inj h
    exact ⟨nofun, nofun⟩

/-- One of several types is found to be callable exactly if one is. -/
private theorem anyCallable_iff (ts : List TypeExpr)
    (ht : ∀ t ∈ ts, t.MentionsOnly (Judges p passed jump))
    {b : Bool} (h : anyCallable jump ts = .ok b) :
    b = true ↔ ∃ t ∈ ts, p.CallableAround passed t := by
  match ts with
  | [] =>
    obtain rfl := Except.ok.inj h
    simp
  | t :: ts =>
    obtain ⟨first, hfirst, h⟩ := bind_eq_ok.1 h
    have hiff := callableVia_iff t (ht t List.mem_cons_self) hfirst
    cases first with
    | true =>
      obtain rfl := Except.ok.inj h
      simp [← hiff]
    | false =>
      rw [anyCallable_iff ts (fun u hu => ht u (List.mem_cons_of_mem _ hu)) h]
      simp [← hiff]

/-- All of several types are found to be callable exactly if all are. -/
private theorem allCallable_iff (ts : List TypeExpr)
    (ht : ∀ t ∈ ts, t.MentionsOnly (Judges p passed jump))
    {b : Bool} (h : allCallable jump ts = .ok b) :
    b = true ↔ ∀ t ∈ ts, p.CallableAround passed t := by
  match ts with
  | [] =>
    obtain rfl := Except.ok.inj h
    simp
  | t :: ts =>
    obtain ⟨first, hfirst, h⟩ := bind_eq_ok.1 h
    have hiff := callableVia_iff t (ht t List.mem_cons_self) hfirst
    cases first with
    | true =>
      rw [allCallable_iff ts (fun u hu => ht u (List.mem_cons_of_mem _ hu)) h]
      simp [← hiff]
    | false =>
      obtain rfl := Except.ok.inj h
      simp [← hiff]

end

mutual

/-- The search asks for no declarations but those that the type mentions. -/
theorem callableVia_congr (t : TypeExpr) (ht : t.MentionsOnly fun d => jump d = jump' d) :
    t.callableVia jump = t.callableVia jump' := by
  match t with
  | .intersection _ parts => exact anyCallable_congr parts (mentionsOnly_intersection.1 ht)
  | .union _ parts => exact allCallable_congr parts (mentionsOnly_union.1 ht)
  | .reference _ name _ d =>
    rw [callableVia_reference, callableVia_reference]
    cases d with
    | none => rfl
    | some d =>
      have hjump : jump d = jump' d := (mentionsOnly_reference.1 ht).1 d rfl
      dsimp only
      rw [hjump]
  | .function .. | .object .. | .array .. | .tuple .. | .keyword .. | .literal .. | .indexed ..
  | .query .. | .raw .. => rfl

/-- Whether one of several types is callable depends on the declarations they mention alone. -/
private theorem anyCallable_congr (ts : List TypeExpr)
    (ht : ∀ t ∈ ts, t.MentionsOnly fun d => jump d = jump' d) :
    anyCallable jump ts = anyCallable jump' ts := by
  match ts with
  | [] => rfl
  | t :: ts =>
    rw [anyCallable, anyCallable, callableVia_congr t (ht t List.mem_cons_self),
      anyCallable_congr ts fun u hu => ht u (List.mem_cons_of_mem _ hu)]

/-- Whether all of several types are callable depends on the declarations they mention alone. -/
private theorem allCallable_congr (ts : List TypeExpr)
    (ht : ∀ t ∈ ts, t.MentionsOnly fun d => jump d = jump' d) :
    allCallable jump ts = allCallable jump' ts := by
  match ts with
  | [] => rfl
  | t :: ts =>
    rw [allCallable, allCallable, callableVia_congr t (ht t List.mem_cons_self),
      allCallable_congr ts fun u hu => ht u (List.mem_cons_of_mem _ hu)]

end

mutual

/-- The search fails only at a declaration that the type mentions. -/
theorem exists_of_callableVia_eq_error (t : TypeExpr) {f : Failure}
    (h : t.callableVia jump = .error f) : ∃ d ∈ t.mentioned, jump d = .error f := by
  match t with
  | .intersection _ parts => exact exists_of_anyCallable_eq_error parts h
  | .union _ parts => exact exists_of_allCallable_eq_error parts h
  | .reference _ name _ d =>
    rw [callableVia_reference] at h
    split at h
    · cases h
    · cases d with
      | none => cases h
      | some d => exact ⟨d, List.mem_append_left _ (List.mem_singleton_self d), h⟩
  | .function .. | .object .. | .array .. | .tuple .. | .keyword .. | .literal .. | .indexed ..
  | .query .. | .raw .. => cases h

/-- No answer for several types is no answer for one of their declarations. -/
private theorem exists_of_anyCallable_eq_error (ts : List TypeExpr) {f : Failure}
    (h : anyCallable jump ts = .error f) : ∃ d ∈ mentionedAll ts, jump d = .error f := by
  match ts with
  | [] => cases h
  | t :: ts =>
    rw [mentionedAll]
    rcases bind_eq_error.1 h with hfirst | ⟨first, -, h⟩
    · obtain ⟨d, hd, hf⟩ := exists_of_callableVia_eq_error t hfirst
      exact ⟨d, List.mem_append_left _ hd, hf⟩
    · cases first with
      | true => cases h
      | false =>
        obtain ⟨d, hd, hf⟩ := exists_of_anyCallable_eq_error ts h
        exact ⟨d, List.mem_append_right _ hd, hf⟩

/-- No answer for several types is no answer for one of their declarations. -/
private theorem exists_of_allCallable_eq_error (ts : List TypeExpr) {f : Failure}
    (h : allCallable jump ts = .error f) : ∃ d ∈ mentionedAll ts, jump d = .error f := by
  match ts with
  | [] => cases h
  | t :: ts =>
    rw [mentionedAll]
    rcases bind_eq_error.1 h with hfirst | ⟨first, -, h⟩
    · obtain ⟨d, hd, hf⟩ := exists_of_callableVia_eq_error t hfirst
      exact ⟨d, List.mem_append_left _ hd, hf⟩
    · cases first with
      | true =>
        obtain ⟨d, hd, hf⟩ := exists_of_allCallable_eq_error ts h
        exact ⟨d, List.mem_append_right _ hd, hf⟩
      | false => cases h

end

end TypeExpr

/-! ## The search through declarations -/

namespace Project

variable {p : Project (Except Failure)} {r : Resolver} {d : TypeDeclaration} {t : TypeExpr}
variable {ask ask' : TypeExpr → Except Failure Bool} {passed : Opened}

/-- A declaration that is not read is not callable. -/
private theorem isCallableDeclaration_of_place_eq_none (h : d.place = none) :
    p.isCallableDeclaration ask d = .ok false := by
  rw [isCallableDeclaration, h]
  rfl

/-- A declaration is callable by its value or by its signatures. -/
private theorem isCallableDeclaration_of_places {i : ModuleIndex} {f : Focus} (h : p.Places d i f) :
    p.isCallableDeclaration ask d =
      if d.kind = .alias then
        match f.child? .value with
        | some value => p.typeAt i value >>= ask
        | none => .ok false
      else if d.kind = .interface then
        .ok ((f.node.child? .body).any fun body => body.children.any (·.is .callSignature))
      else .ok false := by
  obtain ⟨hplace, path, hpath, hindex⟩ := h
  rw [isCallableDeclaration, hplace, hpath]
  dsimp only
  rw [hindex]
  rfl

/-- What is said of a declaration is right if it is right about the value of an alias. -/
theorem isCallableDeclaration_iff (hclosed : p.Closed (p.Knows r)) (hd : p.Refers r d)
    {C : TypeExpr → Prop} (hask : ∀ u, p.StandsFor d u → ∀ b, ask u = .ok b → (b = true ↔ C u))
    {b : Bool} (h : p.isCallableDeclaration ask d = .ok b) :
    b = true ↔ (∃ u, p.StandsFor d u ∧ C u) ∨ p.HasCallSignature d := by
  by_cases hplace : d.place = none
  · rw [isCallableDeclaration_of_place_eq_none hplace] at h
    obtain rfl := Except.ok.inj h
    have hnone (hsome : d.place.isSome = true) : False := by simp [hplace] at hsome
    constructor
    · nofun
    · rintro (⟨u, hu, -⟩ | hsignature)
      · exact (hnone hu.isSome_place).elim
      · exact (hnone hsignature.isSome_place).elim
  · obtain ⟨i, f, hf, -⟩ := hd.exists_places hclosed hplace
    rw [isCallableDeclaration_of_places hf] at h
    split at h
    next halias =>
      -- An alias has no signatures of its own, and an interface stands for no other type.
      have hsignature : ¬p.HasCallSignature d := by
        rintro ⟨hinterface, -⟩
        rw [halias] at hinterface
        cases hinterface
      simp only [hsignature, or_false]
      split at h
      next value hvalue =>
        obtain ⟨u, hu, h⟩ := bind_eq_ok.1 h
        have hstands : p.StandsFor d u := ⟨i, value, ⟨halias, f, hf, hvalue⟩, hu⟩
        rw [hask u hstands b h]
        constructor
        · exact fun hC => ⟨u, hstands, hC⟩
        · rintro ⟨u', hu', hC⟩
          exact hstands.unique hu' ▸ hC
      next hvalue =>
        obtain rfl := Except.ok.inj h
        constructor
        · nofun
        · rintro ⟨u, ⟨j, value, ⟨-, g, hg, hvalue'⟩, -⟩, -⟩
          obtain ⟨rfl, rfl⟩ := hf.unique hg
          rw [hvalue] at hvalue'
          cases hvalue'
    next halias =>
      have hstands : ¬∃ u, p.StandsFor d u ∧ C u := fun ⟨_, hu, _⟩ => halias hu.kind_eq
      simp only [hstands, false_or]
      split at h
      next hinterface =>
        obtain rfl := Except.ok.inj h
        simp only [Option.any_eq_true, List.any_eq_true]
        constructor
        · rintro ⟨body, hbody, hc⟩
          exact ⟨hinterface, i, f, body, hf, hbody, hc⟩
        · rintro ⟨-, j, g, body, hg, hbody, hc⟩
          obtain ⟨rfl, rfl⟩ := hf.unique hg
          exact ⟨body, hbody, hc⟩
      next hinterface =>
        obtain rfl := Except.ok.inj h
        exact ⟨nofun, fun hsignature => absurd hsignature.1 hinterface⟩

/-- Only the value of an alias is asked about. -/
theorem isCallableDeclaration_congr (hclosed : p.Closed (p.Knows r)) (hd : p.Refers r d)
    (hask : ∀ u, p.StandsFor d u → ask u = ask' u) :
    p.isCallableDeclaration ask d = p.isCallableDeclaration ask' d := by
  by_cases hplace : d.place = none
  · rw [isCallableDeclaration_of_place_eq_none hplace,
      isCallableDeclaration_of_place_eq_none hplace]
  · obtain ⟨i, f, hf, -⟩ := hd.exists_places hclosed hplace
    rw [isCallableDeclaration_of_places hf, isCallableDeclaration_of_places hf]
    split
    next halias =>
      split
      next value hvalue =>
        exact bind_congr_of_ok fun u hu => hask u ⟨i, value, ⟨halias, f, hf, hvalue⟩, hu⟩
      · rfl
    · rfl

/-- Judging a declaration fails only at the value of an alias. -/
theorem of_isCallableDeclaration_eq_error (hclosed : p.Closed (p.Knows r)) (hd : p.Refers r d)
    {f : Failure} (h : p.isCallableDeclaration ask d = .error f) :
    (∃ i value, p.IsAliasOf d i value ∧ p.typeAt i value = .error f) ∨
      ∃ u, p.StandsFor d u ∧ ask u = .error f := by
  by_cases hplace : d.place = none
  · rw [isCallableDeclaration_of_place_eq_none hplace] at h
    cases h
  · obtain ⟨i, g, hg, -⟩ := hd.exists_places hclosed hplace
    rw [isCallableDeclaration_of_places hg] at h
    split at h
    next halias =>
      split at h
      next value hvalue =>
        have hvalue : p.IsAliasOf d i value := ⟨halias, g, hg, hvalue⟩
        rcases bind_eq_error.1 h with hbuild | ⟨u, hu, h⟩
        · exact .inl ⟨i, value, hvalue, hbuild⟩
        · exact .inr ⟨u, ⟨i, value, hvalue, hu⟩, h⟩
      · cases h
    · split at h <;> cases h

/-- One step looks into each declaration that was not passed. -/
private theorem isCallableInside_succ (fuel : Nat) (passed : Opened) (t : TypeExpr) :
    p.isCallableInside (fuel + 1) passed t = t.callableVia fun d =>
      if d.identity ∈ passed then .ok false
      else p.isCallableDeclaration (p.isCallableInside fuel (d.identity :: passed)) d := by
  simp only [isCallableInside, List.contains_iff_mem]
  rfl

section

variable {identities : Finset (String × String)} (hclosed : p.Closed (p.Knows r))
variable (hlookups : p.FailsByLookups)
variable (hmem : ∀ d u, p.Refers r d → p.StandsFor d u → d.identity ∈ identities)

include hclosed hlookups hmem

/-- With enough steps, a type is said to be callable if it is so around the declarations passed. -/
theorem isCallableInside_iff (fuel : Nat) (passed : Opened) (t : TypeExpr)
    (ht : t.MentionsOnly (p.Refers r)) (hfuel : (identities \ passed.toFinset).card < fuel)
    {b : Bool} (h : p.isCallableInside fuel passed t = .ok b) :
    b = true ↔ p.CallableAround passed t := by
  induction fuel generalizing passed t b with
  | zero => omega
  | succ fuel ih =>
    rw [isCallableInside_succ] at h
    refine TypeExpr.callableVia_iff t (fun d hd b hb => ?_) h
    split at hb
    next hold =>
      obtain rfl := Except.ok.inj hb
      exact ⟨nofun, fun hdeclares => absurd hold hdeclares.1⟩
    next hnew =>
      rw [isCallableDeclaration_iff hclosed (ht d hd) (fun u hu c hc => ?_) hb]
      · exact ⟨fun hdeclares => ⟨hnew, hdeclares⟩, And.right⟩
      · exact ih _ u (hu.mentionsOnly hclosed (ht d hd) hlookups)
          (card_sdiff_cons_lt (hmem d u (ht d hd) hu) hnew hfuel) hc

/-- With enough steps, more of them make no difference. -/
theorem isCallableInside_eq (fuel fuel' : Nat) (passed : Opened) (t : TypeExpr)
    (ht : t.MentionsOnly (p.Refers r)) (hfuel : (identities \ passed.toFinset).card < fuel)
    (hfuel' : (identities \ passed.toFinset).card < fuel') :
    p.isCallableInside fuel passed t = p.isCallableInside fuel' passed t := by
  induction fuel generalizing fuel' passed t with
  | zero => omega
  | succ fuel ih =>
    obtain ⟨fuel', rfl⟩ : ∃ n, fuel' = n + 1 := ⟨fuel' - 1, by omega⟩
    rw [isCallableInside_succ, isCallableInside_succ]
    refine TypeExpr.callableVia_congr t fun d hd => ?_
    dsimp only
    by_cases hold : d.identity ∈ passed
    · rw [if_pos hold, if_pos hold]
    · rw [if_neg hold, if_neg hold]
      refine isCallableDeclaration_congr hclosed (ht d hd) fun u hu => ?_
      have hmem := hmem d u (ht d hd) hu
      exact ih _ _ u (hu.mentionsOnly hclosed (ht d hd) hlookups)
        (card_sdiff_cons_lt hmem hold hfuel) (card_sdiff_cons_lt hmem hold hfuel')

omit hmem

/-- The search fails only at an alias that the type leads to. -/
theorem exists_of_isCallableInside_eq_error (fuel : Nat) (passed : Opened) (t : TypeExpr)
    (ht : t.MentionsOnly (p.Refers r)) {f : Failure}
    (h : p.isCallableInside fuel passed t = .error f) :
    ∃ d i value, p.LeadsToType t d ∧ p.Refers r d ∧ p.IsAliasOf d i value ∧
      p.typeAt i value = .error f := by
  induction fuel generalizing passed t with
  | zero =>
    obtain ⟨d, -, hd⟩ := TypeExpr.exists_of_callableVia_eq_error t h
    cases hd
  | succ fuel ih =>
    rw [isCallableInside_succ] at h
    obtain ⟨d, hd, h⟩ := TypeExpr.exists_of_callableVia_eq_error t h
    split at h
    · cases h
    · rcases of_isCallableDeclaration_eq_error hclosed (ht d hd) h with
        ⟨i, value, hvalue, hbuild⟩ | ⟨u, hu, h⟩
      · exact ⟨d, i, value, .mentioned hd, ht d hd, hvalue, hbuild⟩
      · obtain ⟨e, i, value, he, hrefers, hvalue, hbuild⟩ :=
          ih _ u (hu.mentionsOnly hclosed (ht d hd) hlookups) h
        exact ⟨e, i, value, .value hd hu he, hrefers, hvalue, hbuild⟩

end

/-- Building the value of an alias fails as a look-up at most. -/
theorem failsByLookup_typeAt (hlookups : p.FailsByLookups) (i : ModuleIndex) (f : Focus) :
    FailsByLookup (p.typeAt i f) :=
  (TypeExpr.mentionsOnly_build (P := fun _ => True)
    (fun name qualifier => ⟨by simp, hlookups.binder i f name qualifier⟩) f.node).fails

end Project

namespace Workspace

variable {r : Resolver} {source : Source} {p : Planner (Except Failure)} {t : TypeExpr}

/-- Whether a type of a project is callable is found after a bounded number of steps. If names stand
for one declaration each, the answer is whether the type is in the least set of callable types,
however its aliases refer to themselves. There is no answer only if the value of an alias that the
type leads to cannot be built, because of a malformed manifest or a path without a name. -/
theorem isCallable_iff_callable (h : (fresh r).planner source = .ok p)
    (hnames : p.project.NamesTypesOnce r) (ht : t.MentionsOnly (p.project.Refers r)) :
    (∀ fuel, p.project.bound ≤ fuel →
      p.project.isCallableInside fuel [] t = p.project.isCallable t) ∧
    (∀ b, p.project.isCallable t = .ok b → (b = true ↔ p.project.Callable t)) ∧
    ∀ f, p.project.isCallable t = .error f → f.IsOfLookup ∧
      ∃ d i value, p.project.LeadsToType t d ∧ p.project.IsAliasOf d i value ∧
        p.project.typeAt i value = .error f := by
  have hclosed := closed_knows h
  have hlookups := failsByLookups h
  have hmem (d : TypeDeclaration) (u : TypeExpr) (hd : p.project.Refers r d)
      (hu : p.project.StandsFor d u) : d.identity ∈ r.typeIdentities p.main :=
    identity_mem_typeIdentities h hd hu.isSome_place (.inl hu.kind_eq)
  have hcard := card_typeIdentities_lt_bound h
  refine ⟨fun fuel hfuel => ?_, fun b hb => ?_, fun f hf => ?_⟩
  · exact Project.isCallableInside_eq hclosed hlookups hmem fuel _ [] t ht
      (by simpa using hcard.trans_le hfuel) (by simpa using hcard)
  · rw [← Project.callableAround_nil_iff hnames hclosed hlookups ht]
    exact Project.isCallableInside_iff hclosed hlookups hmem _ [] t ht (by simpa using hcard) hb
  · obtain ⟨d, i, value, hleads, -, hvalue, hbuild⟩ :=
      Project.exists_of_isCallableInside_eq_error hclosed hlookups _ [] t ht hf
    exact ⟨Project.failsByLookup_typeAt hlookups i value f hbuild, d, i, value, hleads, hvalue,
      hbuild⟩

end Workspace

/-- Where the value of an alias at the top of a module is written. -/
def ModuleIndex.valueOf? (i : ModuleIndex) (name : String) : Option Focus :=
  (i.type? name).bind (·.child? .value)

/-- The value of a name stands in the module. -/
theorem ModuleIndex.isIn_of_valueOf? {resolve : String → Path → Except Failure (Option Path)}
    {i : ModuleIndex} (h : ofSource resolve i.source = .ok i) {name : String} {f : Focus}
    (hf : i.valueOf? name = some f) : f.IsIn i.source.root := by
  obtain ⟨g, hg, hf⟩ := Option.bind_eq_some_iff.1 hf
  obtain ⟨v, hv, -, rfl, -⟩ := exists_leads_of_type? h hg
  obtain ⟨n, hn, -, rfl⟩ := Event.Visit.exists_of_child? hf
  exact (Event.Visit.isIn hv).down hn

/-- A module with an alias that is the union of itself and a function type. -/
def circularUnion : FileTree := .ofEntries [
  ("c.ts", "export type L = L | (() => void);\n")]

/-- A module with an alias that is the intersection of itself and a function type. -/
def circularAliases : Source :=
  .parsed (FileTree.resolve (.ofText "a.ts")) .typescript
    ("import \x7b L \x7d from './c';\ntype H = H & (() => void);\n" ++
      "type A = H & \x7b a: L \x7d;\ntype B = L | H;\n")

set_option maxRecDepth 100000 in
private theorem planner_circularAliases :
    ∃ p, (Workspace.fresh ⟨circularUnion, none⟩).planner circularAliases = .ok p ∧
      (((⟨circularUnion, none⟩ : Resolver).knownPaths p.main).map Path.text).Nodup ∧
      p.main.source.IsFlat ∧
      (∀ file ∈ circularUnion.files, ∀ s, Source.ofText file.2 file.1 none = .ok s → s.IsFlat) ∧
      (∃ f, p.main.valueOf? "A" = some f ∧ ∃ t, p.project.typeAt p.main f = .ok t ∧
        ∃ b, p.project.isCallable t = .ok b ∧ b = true) ∧
      ∃ f, p.main.valueOf? "B" = some f ∧ ∃ t, p.project.typeAt p.main f = .ok t ∧
        ∃ b, p.project.isCallable t = .ok b ∧ b = false := by
  decide +kernel

/-- The intersection is callable by its other part. The union is not, as nothing but itself would
make it so. -/
theorem Workspace.isCallable_circularAliases :
    ∃ p, (fresh ⟨circularUnion, none⟩).planner circularAliases = .ok p ∧
      p.project.NamesTypesOnce ⟨circularUnion, none⟩ ∧
      (∃ t, t.MentionsOnly (p.project.Refers ⟨circularUnion, none⟩) ∧
        p.project.isCallable t = .ok true ∧ p.project.Callable t) ∧
      ∃ t, t.MentionsOnly (p.project.Refers ⟨circularUnion, none⟩) ∧
        p.project.isCallable t = .ok false ∧ ¬p.project.Callable t := by
  obtain ⟨p, hp, hpaths, hflat, hfiles, ⟨f, hf, t, ht, b, hb, rfl⟩, g, hg, u, hu, c, hc, rfl⟩ :=
    planner_circularAliases
  have hmain := knows_main hp
  have hnames := namesTypesOnce_of_isFlat hp hpaths hflat hfiles
  have hmentions {name : String} {f : Focus} (hf : p.main.valueOf? name = some f) {t : TypeExpr}
      (ht : p.project.typeAt p.main f = .ok t) :
      t.MentionsOnly (p.project.Refers ⟨circularUnion, none⟩) :=
    Project.mentionsOnly_of_typeAt hmain (failsByLookups hp)
      (ModuleIndex.isIn_of_valueOf? hmain.ofSource hf) ht
  have hyes := (isCallable_iff_callable hp hnames (hmentions hf ht)).2.1 true hb
  have hno := (isCallable_iff_callable hp hnames (hmentions hg hu)).2.1 false hc
  exact ⟨p, hp, hnames, ⟨t, hmentions hf ht, hb, hyes.1 rfl⟩, u, hmentions hg hu, hc,
    fun hcallable => by simpa using hno.2 hcallable⟩

/-- An alias of a type from a module that imports a package with a malformed manifest. -/
def brokenPackage : FileTree := .ofEntries [
  ("c.ts", "import \x7b T \x7d from './b';\nexport type A = T[];\n"),
  ("b.ts", "import 'p';\nexport type T = number;\n"), ("node_modules/p/package.json", "[]")]

/-- The alias comes before a function type. -/
def brokenIntersection : Source :=
  .parsed (FileTree.resolve (.ofText "a.ts")) .typescript
    "import \x7b A \x7d from './c';\ntype X = A & (() => void);\n"

set_option maxRecDepth 100000 in
private theorem planner_brokenIntersection :
    ∃ p, (Workspace.fresh ⟨brokenPackage, none⟩).planner brokenIntersection = .ok p ∧
      (((⟨brokenPackage, none⟩ : Resolver).knownPaths p.main).map Path.text).Nodup ∧
      p.main.source.IsFlat ∧
      (∀ file ∈ brokenPackage.files, ∀ s, Source.ofText file.2 file.1 none = .ok s → s.IsFlat) ∧
      ∃ f, p.main.valueOf? "X" = some f ∧ ∃ t, p.project.typeAt p.main f = .ok t ∧
        (t.isIntersection = true ∧ t.arguments.any TypeExpr.isFunction = true) ∧
        ¬∃ b, p.project.isCallable t = .ok b ∧ b = true := by
  decide +kernel

/-- An intersection with a function is callable. -/
private theorem Project.callable_of_isIntersection {p : Project (Except Failure)} {t : TypeExpr}
    (h : t.isIntersection = true) (hpart : t.arguments.any TypeExpr.isFunction = true) :
    p.Callable t := by
  cases t with
  | intersection text parts =>
    obtain ⟨u, hu, hfunction⟩ := List.any_eq_true.1 hpart
    cases u with
    | function => exact .intersection hu .function
    | _ => cases hfunction
  | _ => cases h

/-- A function type makes the intersection callable, but the manifest keeps the project from an
answer. -/
theorem Workspace.not_forall_isCallable_iff_callable :
    ¬∀ (r : Resolver) (source : Source) (p : Planner (Except Failure)),
      (fresh r).planner source = .ok p → p.project.NamesTypesOnce r →
        ∀ t, t.MentionsOnly (p.project.Refers r) →
          (p.project.isCallable t = .ok true ↔ p.project.Callable t) := by
  intro h
  obtain ⟨p, hp, hpaths, hflat, hfiles, f, hf, t, ht, ⟨hform, hpart⟩, hnot⟩ :=
    planner_brokenIntersection
  have hmain := knows_main hp
  have hnames := namesTypesOnce_of_isFlat hp hpaths hflat hfiles
  have hmentions := Project.mentionsOnly_of_typeAt hmain (failsByLookups hp)
    (ModuleIndex.isIn_of_valueOf? hmain.ofSource hf) ht
  have hcallable := Project.callable_of_isIntersection (p := p.project) hform hpart
  exact hnot ⟨true, (h _ _ p hp hnames t hmentions).2 hcallable, rfl⟩

end StableProps

import StableProps.Proofs.Types.Built

/-!
# What types mention

A type that is built from syntax mentions only declarations that its names were bound to. This holds
of everything inside it, and so of every type that a look-up takes out of it. Building a type fails
only if a name cannot be bound.
-/

namespace StableProps.TypeExpr

variable {P : TypeDeclaration → Prop} {text name : String} {t : TypeExpr} {ts : List TypeExpr}

/-- All declarations that a type mentions have a property. -/
def MentionsOnly (P : TypeDeclaration → Prop) (t : TypeExpr) : Prop := ∀ d ∈ t.mentioned, P d

/-- What several types mention has a property if what each of them mentions has it. -/
private theorem forall_mem_mentionedAll :
    (∀ d ∈ mentionedAll ts, P d) ↔ ∀ t ∈ ts, t.MentionsOnly P := by
  rw [mentionedAll_eq_flatMap]
  simp only [MentionsOnly, List.mem_flatMap]
  grind

/-- A reference mentions its declaration and what its arguments mention. -/
theorem mentionsOnly_reference {d : Option TypeDeclaration} :
    MentionsOnly P (.reference text name ts d) ↔
      (∀ e, d = some e → P e) ∧ ∀ t ∈ ts, t.MentionsOnly P := by
  rw [MentionsOnly, mentioned, List.forall_mem_append, forall_mem_mentionedAll]
  simp

/-- A union mentions what its members mention. -/
theorem mentionsOnly_union : MentionsOnly P (.union text ts) ↔ ∀ t ∈ ts, t.MentionsOnly P :=
  forall_mem_mentionedAll

/-- An intersection mentions what its members mention. -/
theorem mentionsOnly_intersection :
    MentionsOnly P (.intersection text ts) ↔ ∀ t ∈ ts, t.MentionsOnly P :=
  forall_mem_mentionedAll

/-- A type that has the form of types that are built from syntax mentions only what was found. -/
theorem IsBuilt.mentionsOnly (h : t.IsBuilt P) : t.MentionsOnly P := by
  intro d hd
  rw [mentioned_eq_filterMap] at hd
  obtain ⟨u, hu, hdeclaration⟩ := List.mem_filterMap.1 hd
  exact (h u hu).declaration d hdeclaration

/-! ## What a node stands for -/

variable {bind : Binder (Except Failure)}

/-- All declarations that names are bound to have a property. -/
def FindsOnly (bind : Binder (Except Failure)) (P : TypeDeclaration → Prop) : Prop :=
  ∀ name qualifier, Returns (fun d => ∀ e, d = some e → P e) (bind name qualifier)

/-- A type that a node stands for mentions only what its names are bound to. -/
theorem mentionsOnly_build (hbind : FindsOnly bind P) (n : Node) :
    Returns (MentionsOnly P) (build bind n) :=
  have hbuilt := isBuilt_build .returns hbind n
  ⟨fun t ht => (hbuilt.holds t ht).mentionsOnly, hbuilt.fails⟩

end StableProps.TypeExpr

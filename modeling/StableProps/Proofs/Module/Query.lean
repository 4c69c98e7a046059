import StableProps.Module.Query
import StableProps.Proofs.Outcome

/-!
# What look-ups do

A look-up by itself returns what some answers to its questions lead to. Whatever project is asked,
it returns one of these outcomes, and it fails only if the project fails to answer a question.
-/

namespace StableProps

open MonadAttach (CanReturn)

namespace Query

variable {α β : Type}

private theorem andThen_done (q : Query α) : q.andThen done = q := by
  induction q with
  | done a => rfl
  | index path next ih => exact congrArg (index path) (funext ih)
  | resolve specifier file next ih => exact congrArg (resolve specifier file) (funext ih)
  | specify target file next ih => exact congrArg (specify target file) (funext ih)

/-- It does not matter how three questions in a row are grouped. -/
private theorem andThen_assoc {γ : Type} (q : Query α) (f : α → Query β) (g : β → Query γ) :
    (q.andThen f).andThen g = q.andThen fun a => (f a).andThen g := by
  induction q with
  | done a => rfl
  | index path next ih => exact congrArg (index path) (funext ih)
  | resolve specifier file next ih => exact congrArg (resolve specifier file) (funext ih)
  | specify target file next ih => exact congrArg (specify target file) (funext ih)

instance : LawfulMonad Query :=
  LawfulMonad.mk' Query andThen_done (fun _ _ => rfl) andThen_assoc

/-- Some answers lead a look-up to an outcome. -/
def Finds : Query α → α → Prop
  | done b, a => b = a
  | index _ next, a => ∃ i, (next i).Finds a
  | resolve _ _ next, a => ∃ p, (next p).Finds a
  | specify _ _ next, a => ∃ s, (next s).Finds a

/-- A look-up that tells how its outcome was found. -/
def attached : (q : Query α) → Query { a : α // q.Finds a }
  | done a => done ⟨a, rfl⟩
  | index path next => index path fun i =>
      (next i).attached.andThen fun a => done ⟨a.val, i, a.property⟩
  | resolve specifier file next => resolve specifier file fun p =>
      (next p).attached.andThen fun a => done ⟨a.val, p, a.property⟩
  | specify target file next => specify target file fun s =>
      (next s).attached.andThen fun a => done ⟨a.val, s, a.property⟩

instance : MonadAttach Query where
  CanReturn := Finds
  attach := attached

private theorem attached_andThen_val (q : Query α) :
    (q.attached.andThen fun a => done a.val) = q := by
  induction q with
  | done a => rfl
  | index path next ih =>
    refine congrArg (index path) (funext fun i => ?_)
    calc ((next i).attached.andThen _).andThen _
        = (next i).attached.andThen fun a => done a.val := andThen_assoc ..
      _ = next i := ih i
  | resolve specifier file next ih =>
    refine congrArg (resolve specifier file) (funext fun p => ?_)
    calc ((next p).attached.andThen _).andThen _
        = (next p).attached.andThen fun a => done a.val := andThen_assoc ..
      _ = next p := ih p
  | specify target file next ih =>
    refine congrArg (specify target file) (funext fun s => ?_)
    calc ((next s).attached.andThen _).andThen _
        = (next s).attached.andThen fun a => done a.val := andThen_assoc ..
      _ = next s := ih s

/-- What two questions in a row find is found by the second after an answer to the first. -/
private theorem of_finds_andThen {q : Query α} {f : α → Query β} {b : β}
    (h : (q.andThen f).Finds b) : ∃ a, q.Finds a ∧ (f a).Finds b := by
  induction q with
  | done a => exact ⟨a, rfl, h⟩
  | index path next ih =>
    obtain ⟨i, h⟩ := h
    obtain ⟨a, ha, hb⟩ := ih i h
    exact ⟨a, ⟨i, ha⟩, hb⟩
  | resolve specifier file next ih =>
    obtain ⟨p, h⟩ := h
    obtain ⟨a, ha, hb⟩ := ih p h
    exact ⟨a, ⟨p, ha⟩, hb⟩
  | specify target file next ih =>
    obtain ⟨s, h⟩ := h
    obtain ⟨a, ha, hb⟩ := ih s h
    exact ⟨a, ⟨s, ha⟩, hb⟩

instance : LawfulMonadAttach Query where
  map_attach := attached_andThen_val _
  canReturn_map_imp {α P x a} h := by
    obtain ⟨b, -, rfl⟩ := of_finds_andThen h
    exact b.property

/-! ## Asking a project -/

/-- What a look-up returns in a project is something it finds by some answers. -/
theorem canReturn_of_run {m : Type → Type} [Monad m] [LawfulMonad m] [MonadAttach m]
    [LawfulMonadAttach m] {p : Project m} {q : Query α} {a : α} (h : CanReturn (q.run p) a) :
    CanReturn q a := by
  induction q with
  | done b => exact (eq_of_canReturn_pure h).symm
  | index path next ih =>
    obtain ⟨i, -, h⟩ := canReturn_bind h
    exact ⟨i, ih i h⟩
  | resolve specifier file next ih =>
    obtain ⟨target, -, h⟩ := canReturn_bind h
    exact ⟨target, ih target h⟩
  | specify target file next ih =>
    obtain ⟨s, -, h⟩ := canReturn_bind h
    exact ⟨s, ih s h⟩

/-- A project that is asked for two look-ups, one by the outcome of the other, is asked for the one
and then for the other. -/
theorem run_bind {m : Type → Type} [Monad m] [LawfulMonad m] (p : Project m) (q : Query α)
    (f : α → Query β) : (q >>= f).run p = q.run p >>= fun a => (f a).run p := by
  change (q.andThen f).run p = _
  induction q with
  | done a => rw [andThen, run, pure_bind]
  | index path next ih =>
    rw [andThen, run, run, bind_assoc]
    exact congrArg (p.index path >>= ·) (funext ih)
  | resolve specifier file next ih =>
    rw [andThen, run, run, bind_assoc]
    exact congrArg (p.resolve specifier file >>= ·) (funext ih)
  | specify target file next ih =>
    rw [andThen, run, run, bind_assoc]
    exact congrArg (p.specifier target file >>= ·) (funext ih)

/-- A project that is asked to test the elements of a list is asked for each of them. -/
theorem run_filterM {m : Type → Type} [Monad m] [LawfulMonad m] (p : Project m)
    (f : α → Query Bool) (as : List α) :
    (as.filterM f).run p = as.filterM fun a => (f a).run p := by
  induction as with
  | nil => exact (pure_bind [] fun kept => pure kept.reverse).symm
  | cons a as ih =>
    rw [filterM_cons, filterM_cons, run_bind]
    refine bind_congr fun b => ?_
    rw [run_bind, ih]
    rfl

/-- Questions about all items of a list are run one after the other. -/
theorem run_allM {m : Type → Type} [Monad m] [LawfulMonad m] (p : Project m)
    (f : α → Query Bool) (as : List α) :
    (as.allM f).run p = as.allM fun a => (f a).run p := by
  induction as with
  | nil => rfl
  | cons a as ih =>
    rw [List.allM_cons, List.allM_cons, run_bind]
    refine bind_congr fun b => ?_
    cases b with
    | true => exact ih
    | false => rfl

/-- A look-up fails only if the project does not answer. -/
theorem unanswered_of_run {p : Project (Except Failure)} {q : Query α} {f : Failure}
    (h : q.run p = .error f) :
    (∃ path, p.index path = .error f) ∨ (∃ specifier file, p.resolve specifier file = .error f) ∨
      ∃ target file, p.specifier target file = .error f := by
  induction q with
  | done a => cases h
  | index path next ih =>
    rcases bind_eq_error.1 h with hindex | ⟨i, -, h⟩
    · exact .inl ⟨path, hindex⟩
    · exact ih i h
  | resolve specifier file next ih =>
    rcases bind_eq_error.1 h with hresolve | ⟨target, -, h⟩
    · exact .inr (.inl ⟨specifier, file, hresolve⟩)
    · exact ih target h
  | specify target file next ih =>
    rcases bind_eq_error.1 h with hspecifier | ⟨s, -, h⟩
    · exact .inr (.inr ⟨target, file, hspecifier⟩)
    · exact ih s h

end Query

end StableProps

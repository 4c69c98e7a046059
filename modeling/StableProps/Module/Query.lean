import StableProps.Module.Project

/-!
# Look-ups as questions

A look-up through the modules of a project asks which module a path holds, which module a specifier
stands for or by which specifier a module is imported, and goes on by the answers. Written down in
this way it does not depend on how a project gives its answers, so that what a look-up finds is the
same wherever the answers are.
-/

namespace StableProps

/-- A look-up: its outcome, or a question with what is done by the answer. -/
inductive Query (α : Type) where
  | done (a : α)
  | index (path : Path) (next : Option ModuleIndex → Query α)
  | resolve (specifier : String) (file : Path) (next : Option Path → Query α)
  | specify (target file : Path) (next : String → Query α)

namespace Query

/-- A look-up that goes on by the outcome of another one. -/
def andThen {α β : Type} (q : Query α) (f : α → Query β) : Query β :=
  match q with
  | done a => f a
  | index path next => index path fun i => (next i).andThen f
  | resolve specifier file next => resolve specifier file fun p => (next p).andThen f
  | specify target file next => specify target file fun s => (next s).andThen f

instance : Monad Query where
  pure := done
  bind := andThen

/-- Asks a project all questions of a look-up. -/
def run {m : Type → Type} [Monad m] {α : Type} (p : Project m) : Query α → m α
  | done a => pure a
  | index path next => do run p (next (← p.index path))
  | resolve specifier file next => do run p (next (← p.resolve specifier file))
  | specify target file next => do run p (next (← p.specifier target file))

end Query

/-- The project that passes all questions on. -/
def Project.asking (bound : Nat) : Project Query where
  index path := .index path .done
  resolve specifier file := .resolve specifier file .done
  specifier target file := .specify target file .done
  bound := bound

end StableProps

import StableProps.Proofs.Module.Unanswered

/-!
# Caches tell what the files hold

A project that keeps what it has read answers like one that reads each file afresh, as long as the
files stay as they are. Only a module under analysis may differ from its file; it is given to both
projects before they are asked. Every step of an analysis then has the same outcome in both, and
leaves a cache that is as faithful as before.
-/

namespace StableProps

/-- A cache holds what is read from the files, except for modules that are free to differ. -/
def ModuleCache.Faithful (r : Resolver) (free : Path → Prop) (cache : ModuleCache) : Prop :=
  ∀ path known, ¬free path → (path, known) ∈ cache → r.loadModule path = .ok known

/-- A step with a cache has the outcome of a step without one, and leaves a faithful cache. -/
def Simulates (r : Resolver) (free : Path → Prop) {α : Type} (x : Cached α)
    (y : Except Failure α) : Prop :=
  ∀ cache : ModuleCache, cache.Faithful r free →
    ∃ cache' : ModuleCache, x.run cache = pure (y, cache') ∧ cache'.Faithful r free

namespace Simulates

variable {r : Resolver} {free : Path → Prop} {α β : Type}

private theorem bind_apply {σ : Type} (x : StateM σ α) (f : α → StateM σ β) (state : σ) :
    (x >>= f) state = f (x state).run.1 (x state).run.2 := rfl

/-- A result that is at hand leaves the cache as it is. -/
theorem ret (a : α) : Simulates r free (pure a) (pure a) :=
  fun cache hcache => ⟨cache, rfl, hcache⟩

/-- So does a failure. -/
theorem fail (f : Failure) : Simulates r free (throw f : Cached α) (throw f) :=
  fun cache hcache => ⟨cache, rfl, hcache⟩

/-- In a sequence of two steps the second one needs to agree on what the first one returns only. -/
theorem bind_of_eq {x : Cached α} {y : Except Failure α} {f : α → Cached β}
    {g : α → Except Failure β} (hx : Simulates r free x y)
    (hf : ∀ a, y = .ok a → Simulates r free (f a) (g a)) :
    Simulates r free (x >>= f) (y >>= g) := by
  intro cache hcache
  obtain ⟨cache₁, hrun, hcache₁⟩ := hx cache hcache
  have hstep : (x >>= f).run cache = (x.run >>= ExceptT.bindCont f) cache := rfl
  rw [hstep, bind_apply, hrun]
  cases y with
  | error e => exact ⟨cache₁, rfl, hcache₁⟩
  | ok a => exact hf a rfl cache₁ hcache₁

/-- Steps that go on alike have the same outcome in the end. -/
theorem bind {x : Cached α} {y : Except Failure α} {f : α → Cached β} {g : α → Except Failure β}
    (hx : Simulates r free x y) (hf : ∀ a, Simulates r free (f a) (g a)) :
    Simulates r free (x >>= f) (y >>= g) :=
  hx.bind_of_eq fun a _ => hf a

/-- A failure is caught alike with and without a cache. -/
theorem tryCatch {x : Cached α} {y : Except Failure α} {f : Failure → Cached α}
    {g : Failure → Except Failure α} (hx : Simulates r free x y)
    (hf : ∀ e, Simulates r free (f e) (g e)) :
    Simulates r free (tryCatchThe Failure x f) (tryCatchThe Failure y g) := by
  intro cache hcache
  obtain ⟨cache₁, hrun, hcache₁⟩ := hx cache hcache
  have hstep := congrFun (ExceptT.run_tryCatch x f) cache
  rw [bind_apply, hrun] at hstep
  cases y with
  | error e =>
    obtain ⟨cache₂, hrun₂, hcache₂⟩ := hf e cache₁ hcache₁
    exact ⟨cache₂, hstep.trans hrun₂, hcache₂⟩
  | ok a => exact ⟨cache₁, hstep, hcache₁⟩

/-- Steps for all items of a list have the same outcomes. -/
theorem mapM {f : α → Cached β} {g : α → Except Failure β}
    (h : ∀ a, Simulates r free (f a) (g a)) (as : List α) :
    Simulates r free (as.mapM f) (as.mapM g) := by
  induction as with
  | nil => exact ret []
  | cons a as ih =>
    rw [List.mapM_cons, List.mapM_cons]
    exact (h a).bind fun b => ih.bind fun bs => ret (b :: bs)

end Simulates

/-- Two projects of which one uses a cache and answers like the other one. -/
structure Project.Simulates (r : Resolver) (free : Path → Prop) (p : Project Cached)
    (q : Project (Except Failure)) : Prop where
  index : ∀ path, StableProps.Simulates r free (p.index path) (q.index path)
  resolve : ∀ specifier file,
    StableProps.Simulates r free (p.resolve specifier file) (q.resolve specifier file)
  specifier : ∀ target file,
    StableProps.Simulates r free (p.specifier target file) (q.specifier target file)
  bound : p.bound = q.bound

namespace Project.Simulates

variable {r : Resolver} {free : Path → Prop}

/-- Look-ups have the same outcome in both. -/
theorem run {p : Project Cached} {q : Project (Except Failure)} (h : p.Simulates r free q)
    {α : Type} (look : Query α) : StableProps.Simulates r free (look.run p) (look.run q) := by
  induction look with
  | done a => exact .ret a
  | index path next ih => exact (h.index path).bind ih
  | resolve specifier file next ih => exact (h.resolve specifier file).bind ih
  | specify target file next ih => exact (h.specifier target file).bind ih

end Project.Simulates

namespace Resolver

variable {free : Path → Prop}

/-- A step that does not look at modules does not look at the cache. -/
private theorem simulates_liftExcept (r : Resolver) {α : Type} (x : Except Failure α) :
    Simulates r free (cachedProject.liftExcept x) x := by
  cases x with
  | ok a => exact .ret a
  | error f => exact .fail f

/-- A cached answer is the one the files would give. -/
theorem simulates_index (r : Resolver) (cache : ModuleCache) {path : Path} (h : ¬free path) :
    Simulates r free ((r.cachedProject cache).index path) (r.loadModule path) := by
  intro known hknown
  have hrun : ((r.cachedProject cache).index path).run known =
      (cachedProject.answer r path (known.lookup path)).run known := rfl
  rw [hrun]
  cases hlookup : known.lookup path with
  | some answer =>
    obtain ⟨before, after, hparts, -⟩ := List.lookup_eq_some_iff.1 hlookup
    rw [hknown path answer h (by simp [hparts])]
    exact ⟨known, rfl, hknown⟩
  | none =>
    rw [cachedProject.answer]
    cases hload : r.loadModule path with
    | error f => exact ⟨known, rfl, hknown⟩
    | ok loaded =>
      refine ⟨(path, loaded) :: known, rfl, ?_⟩
      intro path' answer hne hanswer
      rcases List.mem_cons.1 hanswer with heq | hanswer
      · obtain ⟨rfl, rfl⟩ := Prod.mk.inj heq
        exact hload
      · exact hknown path' answer hne hanswer

/-- A project whose cache holds no outdated texts answers like one that reads the files, once both
know the module under analysis. -/
theorem simulates_withModule (r : Resolver) {cache : ModuleCache}
    (hcache : outdatedTexts r.tree cache = []) {i : ModuleIndex}
    (h : ∀ path, free path → path = i.path) :
    ((r.cachedProject cache).withModule i).Simulates r free (r.project.withModule i) where
  index path := by
    rw [Project.withModule, Project.withModule]
    dsimp only
    split
    · exact .ret _
    next hne =>
      rw [r.index_project]
      exact r.simulates_index cache fun hfree => hne (h path hfree)
  resolve specifier file := r.simulates_liftExcept (r.resolve specifier file)
  specifier target file := r.simulates_liftExcept (r.specifier target file)
  bound := by
    rw [Project.withModule, Project.withModule, cachedProject, project, hcache, List.append_nil]

end Resolver

end StableProps

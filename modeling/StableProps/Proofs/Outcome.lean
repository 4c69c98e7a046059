import StableProps.Module.Store

/-!
# Outcomes of steps that can fail

The stages of an analysis are written for any monad in which steps can fail. What they return is
read off step by step: a value that can be returned by a sequence of steps comes from a value that
the first step can return, and a failed step returns nothing.
-/

namespace StableProps

open MonadAttach (CanReturn)

/-- A step of which it is known whether it failed returns what it has. -/
instance monadAttachExcept {ε : Type u} : MonadAttach (Except ε) where
  CanReturn x a := x = .ok a
  attach
    | .ok a => .ok ⟨a, rfl⟩
    | .error e => .error e

instance lawfulMonadAttachExcept {ε : Type u} : LawfulMonadAttach (Except ε) where
  map_attach {α x} := by
    cases x <;> rfl
  canReturn_map_imp {α P x a} h := by
    cases x with
    | error e => cases h
    | ok b =>
      obtain rfl : b.val = a := Except.ok.inj h
      exact b.property

/-- A failed step returns nothing. -/
class LawfulFailure (m : Type → Type) [Monad m] [MonadAttach m] [MonadExceptOf Failure m] :
    Prop where
  not_canReturn_throw {α : Type} (f : Failure) (a : α) : ¬CanReturn (throw f : m α) a

instance lawfulFailureExcept : LawfulFailure (Except Failure) where
  not_canReturn_throw f a h := by cases h

instance lawfulFailureCached : LawfulFailure Cached where
  not_canReturn_throw f a h := by
    obtain ⟨s, s', h⟩ := h
    cases h

section

variable {m : Type → Type} [Monad m] [LawfulMonad m] [MonadAttach m] [LawfulMonadAttach m]
variable {α β : Type}

/-- What a sequence of two steps returns comes from what the first of them returns. -/
theorem canReturn_bind {x : m α} {f : α → m β} {b : β} (h : CanReturn (x >>= f) b) :
    ∃ a, CanReturn x a ∧ CanReturn (f a) b :=
  LawfulMonadAttach.canReturn_bind_imp' h

theorem eq_of_canReturn_pure {a b : α} (h : CanReturn (pure a : m α) b) : b = a :=
  (LawfulMonadAttach.eq_of_canReturn_pure h).symm

/-- What a list of steps returns is what its steps return. -/
theorem exists_of_mem_mapM {f : α → m β} {as : List α} {bs : List β} (h : CanReturn (as.mapM f) bs)
    {b : β} (hb : b ∈ bs) : ∃ a ∈ as, CanReturn (f a) b := by
  induction as generalizing bs with
  | nil =>
    rw [List.mapM_nil] at h
    simp [eq_of_canReturn_pure h] at hb
  | cons a as ih =>
    rw [List.mapM_cons] at h
    obtain ⟨c, hc, h⟩ := canReturn_bind h
    obtain ⟨cs, hcs, h⟩ := canReturn_bind h
    obtain rfl := eq_of_canReturn_pure h
    rcases List.mem_cons.1 hb with rfl | hb
    · exact ⟨a, List.mem_cons_self, hc⟩
    · obtain ⟨d, hd, hfd⟩ := ih hcs hb
      exact ⟨d, List.mem_cons_of_mem _ hd, hfd⟩

/-- What a list of steps returns tells what the steps were taken for, if each outcome does. -/
theorem map_eq_of_mapM {f : α → m β} {g : β → α} (hfg : ∀ a b, CanReturn (f a) b → g b = a)
    {as : List α} {bs : List β} (h : CanReturn (as.mapM f) bs) : bs.map g = as := by
  induction as generalizing bs with
  | nil =>
    rw [List.mapM_nil] at h
    rw [eq_of_canReturn_pure h, List.map_nil]
  | cons a as ih =>
    rw [List.mapM_cons] at h
    obtain ⟨c, hc, h⟩ := canReturn_bind h
    obtain ⟨cs, hcs, h⟩ := canReturn_bind h
    obtain rfl := eq_of_canReturn_pure h
    rw [List.map_cons, hfg a c hc, ih hcs]

omit [MonadAttach m] [LawfulMonadAttach m] in
private theorem filterAuxM_eq_bind (f : α → m Bool) (as acc : List α) :
    as.filterAuxM f acc = as.filterAuxM f [] >>= fun kept => pure (kept ++ acc) := by
  induction as generalizing acc with
  | nil => simp [List.filterAuxM]
  | cons a as ih =>
    rw [List.filterAuxM, List.filterAuxM, bind_assoc]
    refine bind_congr fun b => ?_
    rw [ih, ih (bif b then [a] else []), bind_assoc]
    cases b <;> simp

omit [MonadAttach m] [LawfulMonadAttach m] in
/-- The elements that satisfy a test are found one after the other. -/
theorem filterM_cons (f : α → m Bool) (a : α) (as : List α) :
    (a :: as).filterM f =
      f a >>= fun b => as.filterM f >>= fun kept => pure (if b then a :: kept else kept) := by
  rw [List.filterM, List.filterAuxM, bind_assoc]
  refine bind_congr fun b => ?_
  rw [filterAuxM_eq_bind, bind_assoc, List.filterM, bind_assoc]
  cases b <;> simp

end

/-! ## Ways to speak of outcomes -/

/-- A way to say that what a step returns has a property. It goes along with taking one step after
the other. -/
structure OutcomeLogic (m : Type → Type) [Monad m] where
  Ensures : {α : Type} → (α → Prop) → m α → Prop
  pure : ∀ {α : Type} {P : α → Prop} {a : α}, P a → Ensures P (pure a)
  bind : ∀ {α β : Type} {P : α → Prop} {Q : β → Prop} {x : m α} {f : α → m β},
    Ensures P x → (∀ a, P a → Ensures Q (f a)) → Ensures Q (x >>= f)
  imp : ∀ {α : Type} {P Q : α → Prop} {x : m α}, Ensures P x → (∀ a, P a → Q a) → Ensures Q x

namespace OutcomeLogic

variable {m : Type → Type} [Monad m]

/-- All values that a step can return have a property. -/
def canReturn (m : Type → Type) [Monad m] [LawfulMonad m] [MonadAttach m] [LawfulMonadAttach m] :
    OutcomeLogic m where
  Ensures P x := ∀ a, CanReturn x a → P a
  pure h _ ha := eq_of_canReturn_pure ha ▸ h
  bind hx hf b hb :=
    let ⟨a, ha, hb⟩ := canReturn_bind hb
    hf a (hx a ha) b hb
  imp h himp a ha := himp a (h a ha)

variable (L : OutcomeLogic m) {α β : Type} {P : α → Prop} {Q : β → Prop}

theorem cons {x : m α} {xs : m (List α)} (h : L.Ensures P x) (hs : L.Ensures (∀ a ∈ ·, P a) xs) :
    L.Ensures (∀ a ∈ ·, P a) (x >>= fun a => xs >>= fun as => Pure.pure (a :: as)) :=
  L.bind h fun _ ha => L.bind hs fun _ has => L.pure (List.forall_mem_cons.2 ⟨ha, has⟩)

theorem mapM {f : α → m β} (hf : ∀ a, L.Ensures Q (f a)) (as : List α) :
    L.Ensures (∀ b ∈ ·, Q b) (as.mapM f) := by
  -- The loop collects what was returned so far, last first.
  have hloop (bs : List β) (h : ∀ b ∈ bs, Q b) :
      L.Ensures (∀ b ∈ ·, Q b) (List.mapM.loop f as bs) := by
    induction as generalizing bs with
    | nil => exact L.pure fun b hb => h b (List.mem_reverse.1 hb)
    | cons a as ih => exact L.bind (hf a) fun b hb => ih (b :: bs) (List.forall_mem_cons.2 ⟨hb, h⟩)
  exact hloop [] (List.forall_mem_nil _)

end OutcomeLogic

/-! ## Steps without a monad around them -/

theorem bind_eq_ok {ε α β : Type} {x : Except ε α} {f : α → Except ε β} {b : β} :
    x >>= f = .ok b ↔ ∃ a, x = .ok a ∧ f a = .ok b := by
  cases x with
  | ok a => simp [bind, Except.bind]
  | error e => simp [bind, Except.bind]

theorem bind_eq_error {ε α β : Type} {x : Except ε α} {f : α → Except ε β} {e : ε} :
    x >>= f = .error e ↔ x = .error e ∨ ∃ a, x = .ok a ∧ f a = .error e := by
  cases x with
  | ok a => simp [bind, Except.bind]
  | error e' => simp [bind, Except.bind]

/-- What comes after a step is asked for the values that the step returns. -/
theorem bind_congr_of_ok {ε α β : Type} {x : Except ε α} {f g : α → Except ε β}
    (h : ∀ a, x = .ok a → f a = g a) : x >>= f = x >>= g := by
  cases x with
  | ok a => exact h a rfl
  | error e => rfl

/-- A list of steps fails only if one of them does. -/
theorem exists_of_mapM_eq_error {ε α β : Type} {f : α → Except ε β} {as : List α} {e : ε}
    (h : as.mapM f = .error e) : ∃ a ∈ as, f a = .error e := by
  induction as with
  | nil => cases h
  | cons a as ih =>
    rw [List.mapM_cons] at h
    rcases bind_eq_error.1 h with ha | ⟨b, -, h⟩
    · exact ⟨a, List.mem_cons_self, ha⟩
    · rcases bind_eq_error.1 h with has | ⟨bs, -, h⟩
      · obtain ⟨c, hc, hfc⟩ := ih has
        exact ⟨c, List.mem_cons_of_mem _ hc, hfc⟩
      · cases h

/-- Steps that return what they are given leave a list as it is. -/
theorem mapM_eq_ok_self {ε α : Type} {f : α → Except ε α} {as : List α}
    (h : ∀ a ∈ as, f a = .ok a) : as.mapM f = .ok as := by
  induction as with
  | nil => rfl
  | cons a as ih =>
    obtain ⟨ha, has⟩ := List.forall_mem_cons.1 h
    rw [List.mapM_cons, ha, ih has]
    rfl

/-- What is left of a list are the elements for which the test was taken and held. -/
theorem eq_filter_of_filterM {ε α : Type} {f : α → Except ε Bool}
    [DecidableEq (Except ε Bool)] {as kept : List α} (h : as.filterM f = .ok kept) :
    kept = as.filter fun a => f a = .ok true := by
  induction as generalizing kept with
  | nil => exact (Except.ok.inj h).symm
  | cons a as ih =>
    rw [filterM_cons] at h
    obtain ⟨b, hb, h⟩ := bind_eq_ok.1 h
    obtain ⟨rest, hrest, h⟩ := bind_eq_ok.1 h
    rw [List.filter_cons, hb, ← ih hrest, ← Except.ok.inj h]
    cases b <;> simp

/-- A test holds for all elements of a list exactly if it holds for each. -/
theorem allM_eq_ok_true {ε α : Type} {f : α → Except ε Bool} {as : List α} :
    as.allM f = .ok true ↔ ∀ a ∈ as, f a = .ok true := by
  induction as with
  | nil => simp [pure, Except.pure]
  | cons a as ih =>
    rw [List.allM_cons, bind_eq_ok, List.forall_mem_cons, ← ih]
    constructor
    · rintro ⟨b, hb, h⟩
      cases b with
      | true => exact ⟨hb, h⟩
      | false => cases h
    · rintro ⟨ha, has⟩
      exact ⟨true, ha, has⟩

/-- A list of steps whose outcomes are looked at afterwards returns what the steps return. -/
theorem exists_mapM_of_mapM_bind {ε α β γ : Type} {f : α → Except ε β} {g : β → γ} {as : List α}
    {cs : List γ} (h : as.mapM (fun a => f a >>= fun b => pure (g b)) = .ok cs) :
    ∃ bs, as.mapM f = .ok bs ∧ bs.map g = cs := by
  induction as generalizing cs with
  | nil =>
    obtain rfl := Except.ok.inj h
    exact ⟨[], rfl, rfl⟩
  | cons a as ih =>
    rw [List.mapM_cons] at h
    obtain ⟨c, hc, h⟩ := bind_eq_ok.1 h
    obtain ⟨b, hb, hc⟩ := bind_eq_ok.1 hc
    obtain ⟨cs, hcs, h⟩ := bind_eq_ok.1 h
    obtain ⟨bs, hbs, rfl⟩ := ih hcs
    obtain rfl := Except.ok.inj hc
    obtain rfl := Except.ok.inj h
    exact ⟨b :: bs, by rw [List.mapM_cons, hb, hbs]; rfl, rfl⟩

/-- What steps are taken for is related like what they return. -/
theorem pairwise_of_mapM {ε α β : Type} {f : α → Except ε β} {R : α → α → Prop}
    {R' : β → β → Prop}
    (hR : ∀ a a' b b', f a = .ok b → f a' = .ok b' → R a a' → R' b b') {as : List α}
    {bs : List β} (has : as.Pairwise R) (h : as.mapM f = .ok bs) : bs.Pairwise R' := by
  induction has generalizing bs with
  | nil =>
    obtain rfl := Except.ok.inj h
    exact .nil
  | @cons a as ha _ ih =>
    rw [List.mapM_cons] at h
    obtain ⟨b, hb, h⟩ := bind_eq_ok.1 h
    obtain ⟨bs, hbs, h⟩ := bind_eq_ok.1 h
    obtain rfl := Except.ok.inj h
    refine .cons (fun b' hb' => ?_) (ih hbs)
    obtain ⟨a', ha', hfa'⟩ := exists_of_mem_mapM (m := Except ε) hbs hb'
    exact hR a a' b b' hb hfa' (ha a' ha')

/-- Steps that are taken in another order return the same in another order. -/
theorem exists_mapM_of_perm {ε α β : Type} {f : α → Except ε β} {as as' : List α} {bs : List β}
    (hperm : as.Perm as') (h : as.mapM f = .ok bs) :
    ∃ bs', as'.mapM f = .ok bs' ∧ bs.Perm bs' := by
  induction hperm generalizing bs with
  | nil => exact ⟨bs, h, .refl bs⟩
  | cons a _ ih =>
    rw [List.mapM_cons] at h
    obtain ⟨b, hb, h⟩ := bind_eq_ok.1 h
    obtain ⟨bs, hbs, h⟩ := bind_eq_ok.1 h
    obtain rfl := Except.ok.inj h
    obtain ⟨bs', hbs', hperm⟩ := ih hbs
    exact ⟨b :: bs', by rw [List.mapM_cons, hb, hbs']; rfl, hperm.cons b⟩
  | swap a a' as =>
    rw [List.mapM_cons, List.mapM_cons] at h
    obtain ⟨b', hb', h⟩ := bind_eq_ok.1 h
    obtain ⟨bs', hbs', h⟩ := bind_eq_ok.1 h
    obtain ⟨b, hb, hbs'⟩ := bind_eq_ok.1 hbs'
    obtain ⟨bs, hbs, hbs'⟩ := bind_eq_ok.1 hbs'
    obtain rfl := Except.ok.inj hbs'
    obtain rfl := Except.ok.inj h
    exact ⟨b :: b' :: bs, by rw [List.mapM_cons, List.mapM_cons, hb, hb', hbs]; rfl, .swap b b' bs⟩
  | trans _ _ ih ih' =>
    obtain ⟨bs', hbs', hperm⟩ := ih h
    obtain ⟨bs'', hbs'', hperm'⟩ := ih' hbs'
    exact ⟨bs'', hbs'', hperm.trans hperm'⟩

/-! ## Outcomes that are computed -/

/-- Whether a step returns a value with a property can be found by taking it. -/
instance decidableExistsOk {ε α : Type} (x : Except ε α) (P : α → Prop) [DecidablePred P] :
    Decidable (∃ a, x = .ok a ∧ P a) :=
  match x with
  | .ok a => decidable_of_iff (P a) (by simp)
  | .error _ => isFalse (by simp)

/-- Whether all that a step returns has a property can be found by taking it. -/
instance decidableForallOk {ε α : Type} (x : Except ε α) (P : α → Prop) [DecidablePred P] :
    Decidable (∀ a, x = .ok a → P a) :=
  match x with
  | .ok a => decidable_of_iff (P a) (by simp)
  | .error _ => isTrue (by simp)

/-- Whether there is a value with a property can be found by looking at it. -/
instance decidableExistsSome {α : Type} (x : Option α) (P : α → Prop) [DecidablePred P] :
    Decidable (∃ a, x = some a ∧ P a) :=
  match x with
  | some a => decidable_of_iff (P a) (by simp)
  | none => isFalse (by simp)

end StableProps

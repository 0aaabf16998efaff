import LayeredConfig.Error
import Mathlib.Data.List.Forall2

/-!
# Results of computations

What can be said about the results of a computation that may fail, or that has other effects.

* `bind_eq_ok` takes a computation that succeeded apart into its steps, and `bind_eq_error` one that
  failed;
* `failure?_forM` and `failure?_mapM` say with which error a list of computations fails: with that of the
  first that does;
* `SameOutcome` relates two computations that both succeed or both fail;
* `Always P x` says of a computation in any monad that all its results have the property `P`. It is
  stated as an equation between computations, so it needs nothing but the laws of a monad.
* `filterM_append` says that a list may be selected from in two parts, whatever the effects of the test are.
-/

namespace LayeredConfig

/-! ## Computations that may fail -/

section Failing

variable {ε α β : Type} {x : Except ε α} {a : α} {b : β} {e : ε}

theorem bind_eq_ok {f : α → Except ε β} :
    (x >>= f) = .ok b ↔ ∃ a, x = .ok a ∧ f a = .ok b := by
  cases x <;> simp [bind, Except.bind]

theorem bind_eq_error {f : α → Except ε β} :
    (x >>= f) = .error e ↔ x = .error e ∨ ∃ a, x = .ok a ∧ f a = .error e := by
  cases x <;> simp [bind, Except.bind]

theorem map_eq_ok {f : α → β} : (f <$> x) = .ok b ↔ ∃ a, x = .ok a ∧ f a = b := by
  cases x <;> simp [Functor.map, Except.map]

theorem exists_map_ok {f : α → β} (ok : ∃ a, x = .ok a) : ∃ b, f <$> x = .ok b := by
  obtain ⟨a, rfl⟩ := ok
  exact ⟨f a, rfl⟩

theorem ok_of_map {f : α → β} {y : Except ε α} (holds : ∀ a, x = .ok a → y = .ok a)
    (read : f <$> x = .ok b) : f <$> y = .ok b := by
  obtain ⟨a, here, rfl⟩ := map_eq_ok.mp read
  rw [holds a here]
  rfl

theorem ok_of_ite {p : Prop} [Decidable p] {x' y y' : Except ε α} (holds : p → x = .ok a → x' = .ok a)
    (fails : ¬ p → y = .ok a → y' = .ok a) (read : (if p then x else y) = .ok a) :
    (if p then x' else y') = .ok a := by
  split at read
  · next here => rw [if_pos here, holds here read]
  · next here => rw [if_neg here, fails here read]

@[simp]
theorem pure_eq_ok {a' : α} : (pure a : Except ε α) = .ok a' ↔ a = a' := by
  simp [pure, Except.pure]

@[simp]
theorem mapError_ok_iff {δ : Type} {f : ε → δ} : x.mapError f = .ok a ↔ x = .ok a := by
  cases x with
  | error e => exact ⟨nofun, nofun⟩
  | ok b =>
    constructor
    · rintro ⟨⟩
      rfl
    · rintro ⟨⟩
      rfl

theorem mapError_eq_error_iff {δ : Type} {f : ε → δ} {d : δ} :
    x.mapError f = .error d ↔ ∃ e, x = .error e ∧ f e = d := by
  cases x with
  | ok a => exact iff_of_false nofun fun ⟨_, same, _⟩ => nomatch same
  | error e =>
    constructor
    · rintro ⟨⟩
      exact ⟨e, rfl, rfl⟩
    · rintro ⟨_, ⟨⟩, rfl⟩
      rfl

/-- The error of a computation that failed. -/
def failure? : Except ε α → Option ε
  | .ok _ => none
  | .error e => some e

theorem failure?_eq_some_iff : failure? x = some e ↔ x = .error e := by
  cases x <;> simp [failure?]

theorem failure?_eq_none_iff : failure? x = none ↔ ∃ a, x = .ok a := by
  cases x <;> simp [failure?]

theorem failure?_map (f : α → β) (x : Except ε α) : failure? (f <$> x) = failure? x := by
  cases x <;> rfl

/-- Computations one after the other fail like the first one that fails. -/
theorem failure?_forM {γ : Type} (xs : List γ) (f : γ → Except ε PUnit) :
    failure? (forM xs f) = xs.findSome? fun c => failure? (f c) := by
  induction xs with
  | nil => rfl
  | cons c rest ih =>
    rw [List.forM_cons, List.findSome?_cons, ← ih]
    cases f c <;> rfl

/-- Computations with one result each succeed together exactly if each of them does. -/
theorem mapM_eq_ok_iff {γ : Type} {xs : List γ} {as : List α} {f : γ → Except ε α} :
    xs.mapM f = .ok as ↔ List.Forall₂ (fun c a => f c = .ok a) xs as := by
  induction xs generalizing as with
  | nil =>
    rw [List.mapM_nil, pure_eq_ok, List.forall₂_nil_left_iff, eq_comm]
  | cons c rest ih =>
    rw [List.mapM_cons, bind_eq_ok, List.forall₂_cons_left_iff]
    refine exists_congr fun a => ?_
    rw [bind_eq_ok]
    constructor
    · rintro ⟨here, more, read, same⟩
      exact ⟨more, here, ih.mp read, (pure_eq_ok.mp same).symm⟩
    · rintro ⟨more, here, read, rfl⟩
      exact ⟨here, more, ih.mpr read, rfl⟩

/-- Otherwise they fail like the first one that fails. -/
theorem failure?_mapM {γ : Type} (xs : List γ) (f : γ → Except ε α) :
    failure? (xs.mapM f) = xs.findSome? fun c => failure? (f c) := by
  induction xs with
  | nil => rfl
  | cons c rest ih =>
    rw [List.mapM_cons, List.findSome?_cons, ← ih]
    cases f c with
    | error e => rfl
    | ok a => exact failure?_map (a :: ·) (rest.mapM f)

end Failing

/-! ## Two computations -/

/-- Both computations succeed, with results that `R` relates, or both fail, with errors that `E`
relates. -/
inductive SameOutcome {ε ε' α β : Type} (E : ε → ε' → Prop) (R : α → β → Prop) :
    Except ε α → Except ε' β → Prop
  | ok {a : α} {b : β} : R a b → SameOutcome E R (.ok a) (.ok b)
  | error {e : ε} {e' : ε'} : E e e' → SameOutcome E R (.error e) (.error e')

/-- Two errors are of the same kind. -/
def Error.SameKind (e e' : Error) : Prop :=
  e.kind = e'.kind

namespace SameOutcome

variable {ε ε' α α' β β' : Type} {E : ε → ε' → Prop} {R : α → α' → Prop} {S : β → β' → Prop}
  {x : Except ε α} {y : Except ε' α'}

theorem bind {f : α → Except ε β} {g : α' → Except ε' β'} (first : SameOutcome E R x y)
    (next : ∀ a b, R a b → SameOutcome E S (f a) (g b)) : SameOutcome E S (x >>= f) (y >>= g) := by
  cases first with
  | ok related => exact next _ _ related
  | error related => exact .error related

theorem imp {R' : α → α' → Prop} (related : SameOutcome E R x y)
    (weaker : ∀ a b, x = .ok a → y = .ok b → R a b → R' a b) : SameOutcome E R' x y := by
  cases related with
  | ok related => exact .ok (weaker _ _ rfl rfl related)
  | error related => exact .error related

theorem weaken {E' : ε → ε' → Prop} (related : SameOutcome E R x y)
    (weaker : ∀ e e', E e e' → E' e e') : SameOutcome E' R x y := by
  cases related with
  | ok related => exact .ok related
  | error related => exact .error (weaker _ _ related)

/-- Outcomes of three computations, where nothing is said about errors. -/
theorem trans {γ : Type} {ε'' : Type} {z : Except ε'' γ} {S : α' → γ → Prop} {T : α → γ → Prop}
    (first : SameOutcome (fun _ _ => True) R x y) (second : SameOutcome (fun _ _ => True) S y z)
    (both : ∀ a b c, R a b → S b c → T a c) : SameOutcome (fun _ _ => True) T x z := by
  cases first with
  | ok first =>
    cases second with
    | ok second => exact .ok (both _ _ _ first second)
  | error _ =>
    cases second with
    | error _ => exact .error trivial

/-- What is made of the results alone. -/
theorem bind_pure {f : α → β} {g : α' → β'} (first : SameOutcome E R x y)
    (next : ∀ a b, R a b → S (f a) (g b)) :
    SameOutcome E S (x >>= fun a => pure (f a)) (y >>= fun b => pure (g b)) :=
  first.bind fun a b related => .ok (next a b related)

end SameOutcome

/-! ## Computations with any effects -/

universe u

variable {m : Type → Type u} {α β : Type}

/-- All results of the computation have the property: keeping the property beside the result is the
same as keeping a truth beside it. -/
def Always [Monad m] (P : α → Prop) (x : m α) : Prop :=
  (fun a => (a, P a)) <$> x = (fun a => (a, True)) <$> x

namespace Always

variable [Monad m] [LawfulMonad m] {P : α → Prop} {Q : β → Prop} {x : m α}

omit [LawfulMonad m] in
theorem of_forall (holds : ∀ a, P a) (x : m α) : Always P x := by
  have same : (fun a => (a, P a)) = fun a => (a, True) := by
    funext a
    rw [eq_true (holds a)]
  rw [Always, same]

theorem pure {a : α} (holds : P a) : Always P (Pure.pure a : m α) := by
  rw [Always, map_pure, map_pure, eq_true holds]

open Classical in
/-- A computation whose results have a property need only be followed up on such results. -/
theorem bind_eq (always : Always P x) {f g : α → m β} (same : ∀ a, P a → f a = g a) :
    x >>= f = x >>= g := by
  let both : α × Prop → m β := fun r => if r.2 then g r.1 else f r.1
  calc
    x >>= f = ((fun a => (a, P a)) <$> x) >>= both := by
      rw [bind_map_left]
      refine bind_congr fun a => ?_
      by_cases holds : P a
      · simp [holds, same a holds]
      · simp [holds]
    _ = ((fun a => (a, True)) <$> x) >>= both := by rw [always]
    _ = x >>= g := by
      rw [bind_map_left]
      refine bind_congr fun a => ?_
      simp

theorem bind (always : Always P x) {f : α → m β} (next : ∀ a, P a → Always Q (f a)) :
    Always Q (x >>= f) := by
  rw [Always, map_bind, map_bind]
  exact always.bind_eq next

end Always

/-! ### Selecting from a list -/

section Selecting

variable [Monad m] [LawfulMonad m] {γ : Type}

theorem filterAuxM_eq_map (test : γ → m Bool) (xs taken : List γ) :
    xs.filterAuxM test taken = (· ++ taken) <$> xs.filterAuxM test [] := by
  induction xs generalizing taken with
  | nil => simp [List.filterAuxM]
  | cons x rest ih =>
    rw [List.filterAuxM, List.filterAuxM, map_bind]
    refine bind_congr fun accepted => ?_
    cases accepted with
    | true =>
      dsimp only [cond_true]
      rw [ih (x :: taken), ih [x]]
      simp
    | false => exact ih taken

theorem filterM_nil (test : γ → m Bool) : [].filterM test = pure [] := by
  simp [List.filterM, List.filterAuxM]

theorem filterM_cons (test : γ → m Bool) (x : γ) (rest : List γ) :
    (x :: rest).filterM test = (do
      let accepted ← test x
      (fun more => if accepted then x :: more else more) <$> rest.filterM test) := by
  rw [List.filterM, List.filterAuxM, bind_assoc]
  refine bind_congr fun accepted => ?_
  cases accepted with
  | true =>
    dsimp only [cond_true]
    rw [filterAuxM_eq_map]
    simp [List.filterM]
  | false => simp [List.filterM]

theorem filterM_append (test : γ → m Bool) (xs ys : List γ) :
    (xs ++ ys).filterM test = (do
      let first ← xs.filterM test
      (first ++ ·) <$> ys.filterM test) := by
  induction xs with
  | nil => simp [filterM_nil]
  | cons x rest ih =>
    rw [List.cons_append, filterM_cons, filterM_cons, ih, bind_assoc]
    refine bind_congr fun accepted => ?_
    cases accepted <;> simp

/-- Whatever the answers are, some of the list is selected, in its order. -/
theorem always_filterM (test : γ → m Bool) (xs : List γ) :
    Always (fun taken => List.Sublist taken xs) (xs.filterM test) := by
  induction xs with
  | nil =>
    rw [filterM_nil]
    exact .pure (List.Sublist.refl _)
  | cons x rest ih =>
    rw [filterM_cons]
    refine (Always.of_forall (P := fun _ => True) (fun _ => trivial) _).bind fun accepted _ => ?_
    rw [← bind_pure_comp]
    refine ih.bind fun more sublist => .pure ?_
    cases accepted with
    | true => exact sublist.cons_cons x
    | false => exact sublist.cons x

end Selecting

/-! ### Reading off the result -/

/-- All that a computation that may fail results in is its result. -/
theorem Always.ok_self {ε : Type} (x : Except ε α) : Always (fun a => x = .ok a) x := by
  cases x with
  | error e => rfl
  | ok a => exact Always.pure rfl

theorem Always.of_ok {ε : Type} {P : α → Prop} {x : Except ε α} {a : α} (always : Always P x)
    (ok : x = .ok a) : P a := by
  subst ok
  have same := Except.ok.inj always
  exact of_eq_true (Prod.mk.inj same).2

theorem Always.of_run {P : α → Prop} {x : Id α} (always : Always P x) : P x.run := by
  have same : (x.run, P x.run) = (x.run, True) := always
  exact of_eq_true (Prod.mk.inj same).2

/-- A computation with a state has the property of its results in every run. -/
theorem Always.of_state {σ : Type} [Monad m] [LawfulMonad m] {P : α → Prop} {x : StateT σ m α}
    (always : Always P x) (s : σ) : Always (fun r : α × σ => P r.1) (x.run s) := by
  have same := congrArg (fun y : StateT σ m (α × Prop) => y.run s) always
  simp only [StateT.run_map] at same
  have paired := congrArg (fun y => (fun r : (α × Prop) × σ => ((r.1.1, r.2), r.1.2)) <$> y) same
  rw [Always]
  simpa only [Functor.map_map] using paired

end LayeredConfig

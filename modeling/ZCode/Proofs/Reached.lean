/-
  Actions seen from the state they reach.

  An edit of memory or an action of the machine may fault, and what it did before the fault stays
  done.  What is said here of an action is therefore said of the state it reaches in either case.

  * `reached` is that state, and `Within R act` says that `act` leads from every state to one
    related to it by `R`.
  * For a preorder `R` this is closed under sequencing (`Within.bind`), so that it has to be shown
    of the primitive actions only.
-/
import Mathlib.Logic.Relation
import ZCode.Session

namespace ZCode

variable {ε ε' σ α β : Type}

/-- The state of an outcome, whether there was a fault or not. -/
def reached : EStateM.Result ε σ α → σ
  | .ok _ s => s
  | .error _ s => s

@[simp] theorem reached_ok (a : α) (s : σ) : reached (.ok a s : EStateM.Result ε σ α) = s := rfl

@[simp] theorem reached_error (e : ε) (s : σ) : reached (.error e s : EStateM.Result ε σ α) = s := rfl

/-- From every state the action reaches one that is related to it. -/
def Within (R : σ → σ → Prop) (act : EStateM ε σ α) : Prop := ∀ s, R s (reached (act s))

/-! ## Computations without a state -/

theorem bind_eq_ok_iff {x : Except ε α} {f : α → Except ε β} {b : β} :
    x >>= f = .ok b ↔ ∃ a, x = .ok a ∧ f a = .ok b := by
  cases x <;> simp [bind, Except.bind]

/-- The second computation need only be looked at for what the first one gives. -/
theorem bind_congr_of_ok {x : Except ε α} {f g : α → Except ε β} (h : ∀ a, x = .ok a → f a = g a) :
    x >>= f = x >>= g := by
  cases x with
  | ok a => exact h a rfl
  | error e => rfl

/-- A check that lets the computation go on. -/
theorem guard_eq_ok_iff {c : Prop} [Decidable c] {e : ε} {f : α → Except ε β} {x : Except ε β}
    {b : β} : (if c then (throw e : Except ε α) >>= f else x) = .ok b ↔ ¬ c ∧ x = .ok b := by
  split <;> simp_all [bind, Except.bind, throw, throwThe, MonadExceptOf.throw]

/-- A check at the end of a computation. -/
theorem last_guard_eq_ok_iff {c : Prop} [Decidable c] {e : ε} {b : α} :
    (if c then (throw e : Except ε α) else pure b) = .ok b ↔ ¬ c := by
  split <;> simp_all [throw, throwThe, MonadExceptOf.throw, pure, Except.pure]

/-! ## Sequencing -/

theorem bind_ok {x : EStateM ε σ α} {f : α → EStateM ε σ β} {s t : σ} {a : α} (h : x s = .ok a t) :
    (x >>= f) s = f a t := by
  show EStateM.bind x f s = _
  simp [EStateM.bind, h]

theorem bind_error {x : EStateM ε σ α} {f : α → EStateM ε σ β} {s t : σ} {e : ε}
    (h : x s = .error e t) : (x >>= f) s = .error e t := by
  show EStateM.bind x f s = _
  simp [EStateM.bind, h]

theorem get_bind (f : σ → EStateM ε σ β) (s : σ) : (get >>= f) s = f s s := rfl

theorem modify_bind (g : σ → σ) (f : PUnit → EStateM ε σ β) (s : σ) :
    (modify g >>= f) s = f ⟨⟩ (g s) := rfl

theorem bind_congr_left {x y : EStateM ε σ α} {f : α → EStateM ε σ β} {s : σ} (h : x s = y s) :
    (x >>= f) s = (y >>= f) s := by
  show EStateM.bind x f s = EStateM.bind y f s
  simp [EStateM.bind, h]

/-- The second action need only be looked at where the first one leads. -/
theorem bind_congr_of_reached {x : EStateM ε σ α} {f g : α → EStateM ε σ β} {s : σ}
    (h : ∀ a t, x s = .ok a t → f a t = g a t) : (x >>= f) s = (x >>= g) s := by
  cases hx : x s with
  | ok a t => rw [bind_ok hx, bind_ok hx, h a t hx]
  | error e t => rw [bind_error hx, bind_error hx]

/-- A sequence that succeeds is made of two actions that do. -/
theorem ok_of_bind {x : EStateM ε σ α} {f : α → EStateM ε σ β} {s t : σ} {b : β}
    (h : (x >>= f) s = .ok b t) : ∃ a u, x s = .ok a u ∧ f a u = .ok b t := by
  cases hx : x s with
  | ok a u => rw [bind_ok hx] at h; exact ⟨a, u, rfl, h⟩
  | error e u => rw [bind_error hx] at h; cases h

section
variable {R : σ → σ → Prop}

theorem Within.modify {f : σ → σ} (h : ∀ s, R s (f s)) :
    Within R (modify f : EStateM ε σ PUnit) := h

/-- What a part of the state says may be used for the rest of the action. -/
theorem Within.bind_get {f : σ → EStateM ε σ β} (h : ∀ s, R s (reached (f s s))) :
    Within R (get >>= f) := h

variable [IsPreorder σ R]

/-- From a given state, the second action need only be looked at where the first one leads. -/
theorem reached_bind {x : EStateM ε σ α} {f : α → EStateM ε σ β} {s : σ} (hx : R s (reached (x s)))
    (hf : ∀ a t, x s = .ok a t → R t (reached (f a t))) : R s (reached ((x >>= f) s)) := by
  cases hs : x s with
  | ok a t => rw [hs] at hx; rw [bind_ok hs]; exact IsTrans.trans _ _ _ hx (hf a t hs)
  | error e t => rw [hs] at hx; rw [bind_error hs]; exact hx

theorem Within.bind {x : EStateM ε σ α} {f : α → EStateM ε σ β} (hx : Within R x)
    (hf : ∀ a, Within R (f a)) : Within R (x >>= f) :=
  fun s => reached_bind (hx s) fun a t _ => hf a t

theorem Within.pure (a : α) : Within R (pure a : EStateM ε σ α) := fun s => refl s

theorem Within.throw (e : ε) : Within R (throw e : EStateM ε σ α) := fun s => refl s

/-- What comes behind a fault is not reached. -/
theorem Within.throw_bind (e : ε) (f : α → EStateM ε σ β) :
    Within R ((MonadExcept.throw e : EStateM ε σ α) >>= f) := fun s => refl s

theorem Within.get : Within R (get : EStateM ε σ σ) := fun s => refl s

end

/-! ## Outcomes -/

/-- The outcome is a success with `post`, or a fault with `bad`. -/
def Ends (post : α → σ → Prop) (bad : ε → Prop) : EStateM.Result ε σ α → Prop
  | .ok a s => post a s
  | .error e _ => bad e

theorem Ends.mono {post post' : α → σ → Prop} {bad : ε → Prop} {r : EStateM.Result ε σ α}
    (h : Ends post bad r) (hp : ∀ a s, post a s → post' a s) : Ends post' bad r := by
  cases r with
  | ok a s => exact hp a s h
  | error e s => exact h

theorem Ends.bind {x : EStateM ε σ α} {f : α → EStateM ε σ β} {s : σ} {mid : α → σ → Prop}
    {post : β → σ → Prop} {bad : ε → Prop} (hx : Ends mid bad (x s))
    (hf : ∀ a t, mid a t → Ends post bad (f a t)) : Ends post bad ((x >>= f) s) := by
  cases hs : x s with
  | ok a t => rw [hs] at hx; rw [bind_ok hs]; exact hf a t hx
  | error e t => rw [hs] at hx; rw [bind_error hs]; exact hx

/-! ## Two states -/

/-- The outcomes are the same, in states that are related. -/
inductive Related (R : σ → σ → Prop) : EStateM.Result ε σ α → EStateM.Result ε σ α → Prop
  | ok {s t : σ} (a : α) : R s t → Related R (.ok a s) (.ok a t)
  | error {s t : σ} (e : ε) : R s t → Related R (.error e s) (.error e t)

/-- From related states the action has the same outcome, in related states again. -/
def Respects (R : σ → σ → Prop) (act : EStateM ε σ α) : Prop :=
  ∀ s t, R s t → Related R (act s) (act t)

section
variable {R : σ → σ → Prop}

theorem Related.reached {r r' : EStateM.Result ε σ α} (h : Related R r r') :
    R (reached r) (reached r') := by
  cases h <;> assumption

theorem Respects.pure (a : α) : Respects R (pure a : EStateM ε σ α) := fun _ _ h => .ok a h

theorem Respects.modify {f : σ → σ} (h : ∀ s t, R s t → R (f s) (f t)) :
    Respects R (modify f : EStateM ε σ PUnit) := fun s t hst => .ok _ (h s t hst)

theorem Respects.bind {x : EStateM ε σ α} {f : α → EStateM ε σ β} (hx : Respects R x)
    (hf : ∀ a, Respects R (f a)) : Respects R (x >>= f) := by
  intro s t hst
  have h := hx s t hst
  cases hs : x s with
  | ok a u =>
    rw [hs] at h
    generalize ht : x t = r at h
    cases h with
    | ok _ huv =>
      rw [bind_ok hs, bind_ok ht]
      exact hf a _ _ huv
  | error e u =>
    rw [hs] at h
    generalize ht : x t = r at h
    cases h with
    | error _ huv =>
      rw [bind_error hs, bind_error ht]
      exact .error e huv

end

/-! ## Two actions -/

/-- From every state with `P` the actions do the same, and lead to a state with `P` again. -/
def Agrees (P : σ → Prop) (x y : EStateM ε σ α) : Prop := ∀ s, P s → x s = y s ∧ P (reached (y s))

section
variable {P : σ → Prop}

/-- Actions that are the same need only stay in states with `P`. -/
theorem Agrees.of_eq {x y : EStateM ε σ α} (h : x = y) (hy : ∀ s, P s → P (reached (y s))) :
    Agrees P x y := fun s hs => ⟨congrFun h s, hy s hs⟩

theorem Agrees.pure (a : α) : Agrees P (pure a : EStateM ε σ α) (pure a) := fun _ hs => ⟨rfl, hs⟩

theorem Agrees.throw (e : ε) : Agrees P (throw e : EStateM ε σ α) (throw e) := fun _ hs => ⟨rfl, hs⟩

theorem Agrees.throw_bind (e : ε) (f g : α → EStateM ε σ β) :
    Agrees P ((MonadExcept.throw e : EStateM ε σ α) >>= f) (MonadExcept.throw e >>= g) :=
  fun _ hs => ⟨rfl, hs⟩

theorem Agrees.bind {x y : EStateM ε σ α} {f g : α → EStateM ε σ β} (hx : Agrees P x y)
    (hf : ∀ a, Agrees P (f a) (g a)) : Agrees P (x >>= f) (y >>= g) := by
  intro s hs
  obtain ⟨heq, hreached⟩ := hx s hs
  cases hy : y s with
  | ok a u =>
    rw [hy] at heq hreached
    rw [bind_ok heq, bind_ok hy]
    exact hf a u hreached
  | error e u =>
    rw [hy] at heq hreached
    rw [bind_error heq, bind_error hy]
    exact ⟨rfl, hreached⟩

end

/-! ## Results -/

/-- Whatever the action gives has the property. -/
def Gives (P : α → Prop) (act : EStateM ε σ α) : Prop := ∀ s a t, act s = .ok a t → P a

theorem Gives.pure {P : α → Prop} {a : α} (h : P a) : Gives P (pure a : EStateM ε σ α) := by
  rintro s b t ⟨⟩
  exact h

theorem Gives.bind {P : β → Prop} {x : EStateM ε σ α} {f : α → EStateM ε σ β}
    (hf : ∀ a, Gives P (f a)) : Gives P (x >>= f) := by
  intro s b t h
  obtain ⟨a, u, -, hb⟩ := ok_of_bind h
  exact hf a u b t hb

end ZCode

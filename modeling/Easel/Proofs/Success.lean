import Easel.Code.Emit

/-!
# Computations that succeeded

A sequence of computations succeeds exactly if each of its parts does.  The
equivalences of this module take a successful sequence apart, for plain
computations and for those that thread a state through.  What each primitive
step of a computation on a machine's state does is stated at the end.
-/

namespace Easel

theorem bind_eq_ok {first : Except ε α} {next : α → Except ε β} {result : β} :
    (first >>= next) = .ok result ↔ ∃ value, first = .ok value ∧
      next value = .ok result := by
  cases first with
  | error problem => simp [bind, Except.bind]
  | ok value => simp [bind, Except.bind]

theorem pure_eq_ok {value result : α} :
    (pure value : Except ε α) = .ok result ↔ value = result := by
  simp [pure, Except.pure]

theorem throw_ne_ok {problem : ε} {result : α} :
    ¬ (throw problem : Except ε α) = .ok result := by
  simp [throw, throwThe, MonadExceptOf.throw]

theorem toOption_eq_some {result : Except ε α} {value : α} :
    result.toOption = some value ↔ result = .ok value := by
  cases result with
  | error problem => simp [Except.toOption]
  | ok found => simp [Except.toOption]

namespace Threaded

variable {σ ε α β : Type}

theorem bind_eq_ok {first : StateT σ (Except ε) α}
    {next : α → StateT σ (Except ε) β} {state : σ} {result : β × σ} :
    (first >>= next) state = .ok result ↔
      ∃ value between, first state = .ok (value, between) ∧
        next value between = .ok result := by
  simp only [bind, StateT.bind, Except.bind]
  cases first state with
  | error problem => simp
  | ok reached =>
    obtain ⟨value, between⟩ := reached
    simp [and_assoc]

theorem pure_eq_ok {value result : α} {state left : σ} :
    (pure value : StateT σ (Except ε) α) state = .ok (result, left) ↔
      result = value ∧ left = state := by
  constructor
  · rintro ⟨⟩
    exact ⟨rfl, rfl⟩
  · rintro ⟨rfl, rfl⟩
    rfl

theorem lift_eq_ok {plain : Except ε α} {state left : σ} {value : α} :
    (liftM plain : StateT σ (Except ε) α) state = .ok (value, left) ↔
      plain = .ok value ∧ left = state := by
  cases plain with
  | error problem =>
    simp [liftM, monadLift, MonadLift.monadLift, StateT.lift, bind, Except.bind]
  | ok value =>
    simp [liftM, monadLift, MonadLift.monadLift, StateT.lift, bind,
      Except.bind, pure, Except.pure, eq_comm]

theorem bind_apply (first : StateT σ (Except ε) α)
    (next : α → StateT σ (Except ε) β)
    (state : σ) :
    (first >>= next) state =
      first state >>= fun result => next result.1 result.2 :=
  rfl

theorem pure_apply (value : α) (state : σ) :
    (pure value : StateT σ (Except ε) α) state = pure (value, state) :=
  rfl

theorem get_bind (next : σ → StateT σ (Except ε) β) (state : σ) :
    (get >>= next) state = next state state :=
  rfl

theorem set_bind (changed : σ)
    (next : PUnit → StateT σ (Except ε) β)
    (state : σ) :
    (set changed >>= next) state = next ⟨⟩ changed :=
  rfl

theorem modify_bind (change : σ → σ)
    (next : PUnit → StateT σ (Except ε) β)
    (state : σ) :
    (modify change >>= next) state = next ⟨⟩ (change state) :=
  rfl

theorem throw_ne_ok {problem : ε} {state : σ} {result : α × σ} :
    ¬ (throw problem : StateT σ (Except ε) α) state = .ok result := by
  simp [throw, throwThe, MonadExceptOf.throw, StateT.lift, bind, Except.bind]

end Threaded

/-- A computation that gives a result or reports an exhausted segment. -/
def OnlyExhausts (result : Except CompileError α) : Prop :=
  ∀ problem, result = .error problem →
    ∃ region element, problem = .exhausted region element

namespace OnlyExhausts

variable {α β σ : Type}

theorem ok (value : α) : OnlyExhausts (.ok value) := by
  intro problem failed
  cases failed

theorem bind {first : Except CompileError α} {next : α → Except CompileError β}
    (before : OnlyExhausts first)
    (after : ∀ value, first = .ok value → OnlyExhausts (next value)) :
    OnlyExhausts (first >>= next) := by
  cases ran : first with
  | error problem =>
    rintro _ ⟨⟩
    exact before problem ran
  | ok value => exact after value ran

theorem bindRun {first : StateT σ (Except CompileError) α}
    {next : α → StateT σ (Except CompileError) β} {state : σ}
    (before : OnlyExhausts (first state))
    (after : ∀ value between, first state = .ok (value, between) →
      OnlyExhausts (next value between)) :
    OnlyExhausts ((first >>= next) state) :=
  before.bind fun (value, between) ran => after value between ran

end OnlyExhausts

/-- A computation that at worst runs out of storage. -/
structure Yields {α σ : Type}
    (result : Except CompileError (α × σ))
    (post : α → σ → Prop) : Prop where
  exhausts : OnlyExhausts result
  works : ∀ value left, result = .ok (value, left) → post value left

namespace Yields

variable {α β σ : Type} {post : α → σ → Prop} {final : β → σ → Prop} {state : σ}

theorem pure {value : α} (holds : post value state) :
    Yields ((Pure.pure value : StateT σ (Except CompileError) α) state)
      post := by
  refine ⟨.ok _, ?_⟩
  rintro _ _ ⟨⟩
  exact holds

theorem bind {first : StateT σ (Except CompileError) α}
    {next : α → StateT σ (Except CompileError) β}
    (before : Yields (first state) post)
    (after : ∀ value between, post value between →
      Yields (next value between) final) :
    Yields ((first >>= next) state) final := by
  have rest (value : α) (between : σ)
      (ran : first state = .ok (value, between)) :=
    after value between (before.works value between ran)
  refine ⟨before.exhausts.bindRun fun value between ran =>
    (rest value between ran).exhausts, ?_⟩
  intro result left ran
  obtain ⟨value, between, ranFirst, ranNext⟩ := Threaded.bind_eq_ok.mp ran
  exact (rest value between ranFirst).works result left ranNext

theorem imp {result : Except CompileError (α × σ)} {weaker : α → σ → Prop}
    (yields : Yields result post)
    (implies : ∀ value left, post value left → weaker value left) :
    Yields result weaker :=
  ⟨yields.exhausts, fun value left ran =>
    implies value left (yields.works value left ran)⟩

/-- What a computation yields, it yields by a run that can be repeated. -/
theorem ran {result : Except CompileError (α × σ)}
    (yields : Yields result post) :
    Yields result fun value left => result = .ok (value, left) ∧
      post value left :=
  ⟨yields.exhausts, fun value left ran => ⟨ran, yields.works value left ran⟩⟩

/-- A step that leaves the state alone and works. -/
theorem lift {plain : Except CompileError α}
    {next : α → StateT σ (Except CompileError) β} {value : α}
    (works : plain = .ok value)
    (after : Yields (next value state) final) :
    Yields (((liftM plain : StateT σ (Except CompileError) α) >>= next) state)
      final := by
  subst works
  exact after

theorem modify {change : σ → σ}
    {next : PUnit → StateT σ (Except CompileError) β}
    (after : Yields (next ⟨⟩ (change state)) final) :
    Yields ((modify change >>= next) state) final :=
  after

end Yields

theorem get_run (state : σ) : (get : EStateM ε σ σ) state = .ok state state :=
  rfl

theorem set_run (state changed : σ) :
    (set changed : EStateM ε σ PUnit) state = .ok ⟨⟩ changed :=
  rfl

theorem modify_run (change : σ → σ) (state : σ) :
    (modify change : EStateM ε σ PUnit) state = .ok ⟨⟩ (change state) :=
  rfl

theorem throw_eq_error (reason : ε) :
    (throw reason : Except ε α) = .error reason :=
  rfl

theorem throw_run (reason : ε) (state : σ) :
    (throw reason : EStateM ε σ α) state = .error reason state :=
  rfl

end Easel

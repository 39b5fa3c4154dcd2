import XRootDClient.Lib.Stateful

/-!
Pre- and postconditions of computations that may raise. A triple says what holds of the
state when the computation has returned, with what it returned, and what holds of it when
it has raised; the rules follow the way a computation is put together.
-/

set_option autoImplicit false

namespace XRootDClient.Lib.Stateful

universe u

variable {Error World Value Other : Type u}

/-- From every state the condition holds of, the computation returns as the second says or
raises as the third says. -/
def Triple (Before : World → Prop) (act : EStateM Error World Value)
    (Returned : Value → World → Prop) (Raised : Error → World → Prop) : Prop :=
  ∀ world, Before world → match act world with
    | .ok value after => Returned value after
    | .error error after => Raised error after

variable {Before : World → Prop} {Returned : Value → World → Prop}
  {Raised : Error → World → Prop}

theorem triple_pure {value : Value} (holds : ∀ world, Before world → Returned value world) :
    Triple Before (pure value : EStateM Error World Value) Returned Raised :=
  holds

theorem triple_throw {error : Error} (holds : ∀ world, Before world → Raised error world) :
    Triple Before (throw error : EStateM Error World Value) Returned Raised :=
  holds

theorem triple_bind {first : EStateM Error World Value} {rest : Value → EStateM Error World Other}
    {Between : Value → World → Prop} {After : Other → World → Prop}
    (before : Triple Before first Between Raised)
    (after : ∀ value, Triple (Between value) (rest value) After Raised) :
    Triple Before (first >>= rest) After Raised := by
  intro world holds
  have start := before world holds
  rw [run_bind]
  cases outcome : first world with
  | ok value middle =>
      rw [outcome] at start
      exact after value middle start
  | error error middle =>
      rw [outcome] at start
      exact start

theorem triple_get {rest : World → EStateM Error World Value}
    (after : ∀ world, Triple (fun now => now = world ∧ Before world) (rest world) Returned Raised) :
    Triple Before (get >>= rest) Returned Raised :=
  fun world holds => after world world ⟨rfl, holds⟩

theorem triple_look {rest : World → EStateM Error World Value}
    (after : ∀ seen, Triple Before (rest seen) Returned Raised) :
    Triple Before (get >>= rest) Returned Raised :=
  fun world holds => after world world holds

theorem triple_modify {change : World → World} {After : PUnit → World → Prop}
    (holds : ∀ world, Before world → After ⟨⟩ (change world)) :
    Triple Before (modify change : EStateM Error World PUnit) After Raised :=
  holds

theorem triple_catch {act : EStateM Error World Value} {handler : Error → EStateM Error World Value}
    {Caught : Error → World → Prop} (tried : Triple Before act Returned Caught)
    (handled : ∀ error, Triple (Caught error) (handler error) Returned Raised) :
    Triple Before (tryCatch act handler) Returned Raised := by
  intro world holds
  have start := tried world holds
  change match EStateM.tryCatch act handler world with
    | .ok value after => Returned value after
    | .error error after => Raised error after
  unfold EStateM.tryCatch
  cases outcome : act world with
  | ok value middle =>
      rw [outcome] at start
      exact start
  | error error middle =>
      rw [outcome] at start
      exact handled error middle start

theorem triple_weaken {Stronger : World → Prop} {act : EStateM Error World Value}
    {Answers : Value → World → Prop} {Fails : Error → World → Prop}
    (given : Triple Stronger act Answers Fails) (before : ∀ world, Before world → Stronger world)
    (returned : ∀ value world, Answers value world → Returned value world)
    (raised : ∀ error world, Fails error world → Raised error world) :
    Triple Before act Returned Raised := by
  intro world holds
  have start := given world (before world holds)
  cases outcome : act world with
  | ok value after =>
      rw [outcome] at start
      exact returned value after start
  | error error after =>
      rw [outcome] at start
      exact raised error after start

theorem Triple.returns {act : EStateM Error World Value}
    (given : Triple Before act Returned fun _ _ => False) {world : World} (holds : Before world) :
    ∃ value after, act world = .ok value after ∧ Returned value after := by
  have left := given world holds
  cases outcome : act world with
  | ok value after =>
      rw [outcome] at left
      exact ⟨value, after, rfl, left⟩
  | error error after =>
      rw [outcome] at left
      exact left.elim

theorem Triple.final {act : EStateM Error World Value} {After : World → Prop}
    (given : Triple Before act (fun _ => After) (fun _ => After)) {world : World}
    (holds : Before world) : After (final (act world)) := by
  have left := given world holds
  cases outcome : act world with
  | ok value after =>
      rw [outcome] at left
      exact left
  | error error after =>
      rw [outcome] at left
      exact left

end XRootDClient.Lib.Stateful

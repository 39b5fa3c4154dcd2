import Mathlib.Order.Defs.Unbundled

/-!
Computations over a state that may raise and keep the state they had reached.
The equations run one step at a time; `Commutes` says that a change of the state
a program does not look at can be made before it as well as after it, and
composes along the structure of the program.
-/

set_option autoImplicit false

namespace XRootDClient.Lib.Stateful

universe u

variable {Error World Value Other : Type u}

def final : EStateM.Result Error World Value → World
  | .ok _ world => world
  | .error _ world => world

def raised : EStateM.Result Error World Value → Option Error
  | .ok _ _ => none
  | .error error _ => some error

@[simp] theorem final_ok (value : Value) (world : World) :
    final (.ok value world : EStateM.Result Error World Value) = world := rfl

@[simp] theorem final_error (error : Error) (world : World) :
    final (.error error world : EStateM.Result Error World Value) = world := rfl

@[simp] theorem raised_ok (value : Value) (world : World) :
    raised (.ok value world : EStateM.Result Error World Value) = none := rfl

@[simp] theorem raised_error (error : Error) (world : World) :
    raised (.error error world : EStateM.Result Error World Value) = some error := rfl

@[simp] theorem run_pure (value : Value) (world : World) :
    (pure value : EStateM Error World Value) world = .ok value world := (rfl)

@[simp] theorem run_bind (first : EStateM Error World Value) (rest : Value → EStateM Error World Other)
    (world : World) :
    (first >>= rest) world = match first world with
      | .ok value world => rest value world
      | .error error world => .error error world := (rfl)

@[simp] theorem run_get (world : World) :
    (get : EStateM Error World World) world = .ok world world := (rfl)

@[simp] theorem run_set (next world : World) :
    (set next : EStateM Error World PUnit) world = .ok ⟨⟩ next := (rfl)

@[simp] theorem run_modify (change : World → World) (world : World) :
    (modify change : EStateM Error World PUnit) world = .ok ⟨⟩ (change world) := (rfl)

@[simp] theorem run_throw (error : Error) (world : World) :
    (throw error : EStateM Error World Value) world = .error error world := (rfl)

theorem run_catch (act : EStateM Error World Value) (handler : Error → EStateM Error World Value)
    (world : World) : (tryCatch act handler) world = match act world with
      | .ok value world => .ok value world
      | .error error world => handler error world := by
  change EStateM.tryCatch act handler world = _
  unfold EStateM.tryCatch
  cases act world with
  | ok value middle => rfl
  | error error middle => rfl

theorem bind_returns {first : EStateM Error World Value} {rest : Value → EStateM Error World Other}
    {world after : World} {other : Other} (returned : (first >>= rest) world = .ok other after) :
    ∃ value middle, first world = .ok value middle ∧ rest value middle = .ok other after := by
  rw [run_bind] at returned
  cases outcome : first world with
  | ok value middle =>
      rw [outcome] at returned
      exact ⟨value, middle, rfl, returned⟩
  | error error middle =>
      rw [outcome] at returned
      cases returned

theorem except_returns {first : Except Error Value} {rest : Value → Except Error Other}
    {other : Other} (returned : (first >>= rest) = .ok other) :
    ∃ value, first = .ok value ∧ rest value = .ok other := by
  cases first with
  | ok value => exact ⟨value, rfl, returned⟩
  | error error => cases returned

theorem bind_raises {first : EStateM Error World Value} {rest : Value → EStateM Error World Other}
    {world after : World} {error : Error} (raised : (first >>= rest) world = .error error after) :
    first world = .error error after ∨
      ∃ value middle, first world = .ok value middle ∧ rest value middle = .error error after := by
  rw [run_bind] at raised
  cases outcome : first world with
  | ok value middle =>
      rw [outcome] at raised
      exact .inr ⟨value, middle, rfl, raised⟩
  | error early middle =>
      rw [outcome] at raised
      cases raised
      exact .inl rfl

/-- Whether it returns or raises, the computation leaves a state so related to the
one it found. -/
def Respects (Related : World → World → Prop) (act : EStateM Error World Value) : Prop :=
  ∀ world, Related world (final (act world))

theorem respects_bind {Related : World → World → Prop}
    (transitive : ∀ {one two three}, Related one two → Related two three → Related one three)
    {first : EStateM Error World Value} {rest : Value → EStateM Error World Other}
    (before : Respects Related first) (after : ∀ value, Respects Related (rest value)) :
    Respects Related (first >>= rest) := by
  intro world
  have start := before world
  rw [run_bind]
  cases outcome : first world with
  | ok value middle =>
      rw [outcome] at start
      exact transitive start (after value middle)
  | error error middle =>
      rw [outcome] at start
      exact start

def mapWorld (change : World → World) :
    EStateM.Result Error World Value → EStateM.Result Error World Value
  | .ok value world => .ok value (change world)
  | .error error world => .error error (change world)

@[simp] theorem map_world_ok (change : World → World) (value : Value) (world : World) :
    mapWorld change (.ok value world : EStateM.Result Error World Value) =
      .ok value (change world) := rfl

@[simp] theorem map_world_error (change : World → World) (error : Error) (world : World) :
    mapWorld change (.error error world : EStateM.Result Error World Value) =
      .error error (change world) := rfl

/-- The computation does not see the change, and keeps it. -/
def Commutes (change : World → World) (act : EStateM Error World Value) : Prop :=
  ∀ world, act (change world) = mapWorld change (act world)

variable {change : World → World}

theorem commutes_modify {update : World → World}
    (apart : ∀ world, update (change world) = change (update world)) :
    Commutes change (modify update : EStateM Error World PUnit) := by
  intro world
  simp only [run_modify, map_world_ok, apart]

theorem commutes_bind {first : EStateM Error World Value}
    {rest : Value → EStateM Error World Other} (before : Commutes change first)
    (after : ∀ value, Commutes change (rest value)) : Commutes change (first >>= rest) := by
  intro world
  rw [run_bind, run_bind, before world]
  cases outcome : first world with
  | ok value next => exact after value next
  | error error next => rfl

theorem commutes_get {rest : World → EStateM Error World Other}
    (after : ∀ world, rest (change world) (change world) = mapWorld change (rest world world)) :
    Commutes change (get >>= rest) := by
  intro world
  simp only [run_bind, run_get]
  exact after world

end XRootDClient.Lib.Stateful

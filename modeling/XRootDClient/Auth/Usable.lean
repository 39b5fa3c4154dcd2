import XRootDClient.Auth.Ladder

/-!
# What the ladder yields

The credentials a generator would yield if it were drained, in its order. What a
rung comes to does not depend on the reasons collected so far, so this list is
fixed before the first of them is tried: the list somebody gave, or the offered
mechanisms that can be built in order of preference, or, where none can, the
first that somebody supplies the material for.
-/

set_option autoImplicit false

namespace XRootDClient.Auth

open Lib Lib.BigEndian

section Reasons

variable {Body : Type} (installation : Installation Body) (mechanism : Mechanism Body)
  (name : Text) (offer : Offer) (config : Config) (username host : Text)

theorem build_outcome (why other : Dict Text Text) :
    (build mechanism name offer config username host why).1 =
      (build mechanism name offer config username host other).1 := by
  unfold build
  split <;> rfl

theorem ask_once_outcome (attempt : Nat) (question : Ask) (why other : Dict Text Text) :
    (askOnce installation mechanism name offer config username host attempt question why).1 =
      (askOnce installation mechanism name offer config username host attempt question other).1 := by
  unfold askOnce
  split
  · rfl
  · rfl
  · split
    · rfl
    · next trial _ =>
        dsimp only
        rw [build_outcome mechanism name offer trial username host why other]

theorem ask_outcome (why other : Dict Text Text) :
    (ask installation mechanism name offer config username host why).1 =
      (ask installation mechanism name offer config username host other).1 := by
  unfold ask
  split
  · rfl
  · rfl
  · next question _ =>
      have first := ask_once_outcome installation mechanism name offer config username host 0
        question why other
      generalize askOnce installation mechanism name offer config username host 0 question why =
        one at first ⊢
      generalize askOnce installation mechanism name offer config username host 0 question other =
        two at first ⊢
      obtain ⟨answered, why⟩ := one
      obtain ⟨same, other⟩ := two
      dsimp only at first
      subst first
      match answered with
      | .error _ | .ok none | .ok (some (_, some _)) => rfl
      | .ok (some (trial, none)) =>
          dsimp only
          cases mechanism.missing offer trial username host with
          | error error => rfl
          | ok found =>
              cases found with
              | none => rfl
              | some again =>
                  have second := ask_once_outcome installation mechanism name offer config username
                    host 1 again why other
                  dsimp only
                  generalize askOnce installation mechanism name offer config username host 1 again
                    why = one at second ⊢
                  generalize askOnce installation mechanism name offer config username host 1 again
                    other = two at second ⊢
                  obtain ⟨answered, _⟩ := one
                  obtain ⟨same, _⟩ := two
                  dsimp only at second
                  subst second
                  match answered with
                  | .error _ | .ok none | .ok (some (_, _)) => rfl

theorem reach_outcome (ladder : Ladder Body) (rung : Rung Body) (why other : Dict Text Text) :
    (ladder.reach installation rung why).1 = (ladder.reach installation rung other).1 := by
  unfold Ladder.reach
  cases rung with
  | ready credential => rfl
  | build name =>
      dsimp only
      cases installation.registry name with
      | none => rfl
      | some mechanism =>
          dsimp only
          rw [build_outcome mechanism name _ _ _ _ why other]
  | ask name =>
      dsimp only
      split
      · rfl
      · cases installation.registry name with
        | none => rfl
        | some mechanism => exact ask_outcome installation mechanism name _ _ _ _ why other

/-- A reason stays recorded, unless the mechanism it was about is yielded after
all. -/
def Kept (why after : Dict Text Text) (yielded : Option (Credential Body)) : Prop :=
  ∀ recorded ∈ why.keys, recorded ∈ after.keys ∨
    ∃ credential, yielded = some credential ∧ credential.name = recorded

theorem Kept.refl (why : Dict Text Text) (yielded : Option (Credential Body)) :
    Kept why why yielded := fun _ member => .inl member

theorem Kept.trans {why between after : Dict Text Text} {yielded : Option (Credential Body)}
    (first : Kept why between (none : Option (Credential Body)))
    (second : Kept between after yielded) : Kept why after yielded := by
  intro recorded member
  rcases first recorded member with still | ⟨credential, none, -⟩
  · exact second recorded still
  · cases none

theorem Kept.set (why : Dict Text Text) (name reason : Text)
    (yielded : Option (Credential Body)) : Kept why (why.set name reason) yielded := by
  intro recorded member
  exact .inl ((Dict.mem_keys_set _ _ _ _).mpr (.inr member))

theorem build_kept (why : Dict Text Text) :
    Kept why (build mechanism name offer config username host why).2
      (build mechanism name offer config username host why).1 := by
  unfold build
  split
  · exact Kept.set why name _ none
  · exact Kept.set why name _ none
  · intro recorded member
    by_cases same : recorded = name
    · exact .inr ⟨_, rfl, same.symm⟩
    · exact .inl ((Dict.mem_keys_erase _ _ _).mpr ⟨same, member⟩)

/-- What a question leads to, as far as the ladder is concerned. -/
def asked (answered : Except Exception (Option (Config × Option (Credential Body)))) :
    Option (Credential Body) :=
  match answered with
  | .ok (some (_, credential)) => credential
  | _ => none

theorem ask_once_kept (attempt : Nat) (question : Ask) (why : Dict Text Text) :
    Kept why (askOnce installation mechanism name offer config username host attempt question why).2
      (asked (askOnce installation mechanism name offer config username host attempt question
        why).1) := by
  unfold askOnce
  split
  · exact Kept.refl why none
  · exact Kept.refl why none
  · split
    · exact Kept.refl why none
    · next trial _ => exact build_kept mechanism name offer trial username host why

def yielded (outcome : Except Exception (Option (Credential Body))) : Option (Credential Body) :=
  match outcome with
  | .ok found => found
  | .error _ => none

theorem ask_kept (why : Dict Text Text) :
    Kept why (ask installation mechanism name offer config username host why).2
      (yielded (ask installation mechanism name offer config username host why).1) := by
  unfold ask
  split
  · exact Kept.refl why none
  · exact Kept.refl why none
  · next question _ =>
      have first := ask_once_kept installation mechanism name offer config username host 0
        question why
      generalize askOnce installation mechanism name offer config username host 0 question why =
        result at first ⊢
      obtain ⟨answered, between⟩ := result
      match answered with
      | .error _ | .ok none | .ok (some (_, some _)) => exact first
      | .ok (some (trial, none)) =>
          dsimp only
          cases mechanism.missing offer trial username host with
          | error error => exact first
          | ok found =>
              cases found with
              | none => exact first
              | some again =>
                  have second := ask_once_kept installation mechanism name offer config username
                    host 1 again between
                  dsimp only
                  generalize askOnce installation mechanism name offer config username host 1 again
                    between = result at second ⊢
                  obtain ⟨answered, after⟩ := result
                  match answered with
                  | .error _ | .ok none | .ok (some (_, _)) => exact Kept.trans first second

theorem reach_kept (ladder : Ladder Body) (rung : Rung Body) (why : Dict Text Text) :
    Kept why (ladder.reach installation rung why).2
      (yielded (ladder.reach installation rung why).1) := by
  unfold Ladder.reach
  cases rung with
  | ready credential => exact Kept.refl why _
  | build name =>
      dsimp only
      cases installation.registry name with
      | none => exact Kept.set why name _ none
      | some mechanism => exact build_kept mechanism name _ _ _ _ why
  | ask name =>
      dsimp only
      split
      · exact Kept.refl why none
      · cases installation.registry name with
        | none => exact Kept.refl why none
        | some mechanism => exact ask_kept installation mechanism name _ _ _ _ why

end Reasons

section Drained

variable {Body : Type} (installation : Installation Body)

/-- `list(credentials)`: what the generator would yield from these rungs on. -/
def Ladder.usable (ladder : Ladder Body) : List (Rung Body) → List (Credential Body)
  | [] => []
  | rung :: rest =>
      match (ladder.reach installation rung ∅).1 with
      | .error _ => []
      | .ok none => Ladder.usable (ladder.after rung rest (.ok none)) rest
      | .ok (some credential) =>
          let next := ladder.after rung rest (.ok (some credential))
          credential :: if next.rungs.isEmpty then [] else Ladder.usable next rest

def Ladder.remaining (ladder : Ladder Body) : List (Credential Body) :=
  ladder.usable installation ladder.rungs

theorem remaining_given (given : List (Credential Body)) :
    Ladder.remaining installation { rungs := given.map .ready } = given := by
  have drained : ∀ ladder : Ladder Body,
      ladder.usable installation (given.map .ready) = given := by
    induction given with
    | nil => exact fun _ => rfl
    | cons credential rest induction =>
        intro ladder
        simp only [List.map_cons, Ladder.usable, Ladder.reach, Ladder.after]
        cases rest with
        | nil => rfl
        | cons => rw [induction]; rfl
  exact drained _

/-- The mechanism of a name, built from what this installation has. -/
def Ladder.built (ladder : Ladder Body) (name : Text) : Option (Credential Body) :=
  yielded (ladder.reach installation (.build name) ∅).1

def Ladder.supplied (ladder : Ladder Body) (name : Text) : Option (Credential Body) :=
  yielded (ladder.reach installation (.ask name) ∅).1

omit installation in
theorem after_rungs_free (ladder : Ladder Body) (rungs : List (Rung Body)) (rung : Rung Body)
    (rest : List (Rung Body)) (outcome : Except Exception (Option (Credential Body))) :
    Ladder.after { ladder with rungs := rungs } rung rest outcome =
      ladder.after rung rest outcome := by
  unfold Ladder.after
  split <;> rfl

theorem usable_rungs (ladder : Ladder Body) (rungs left : List (Rung Body)) :
    Ladder.usable installation { ladder with rungs := rungs } left =
      ladder.usable installation left := by
  cases left with
  | nil => rfl
  | cons rung rest =>
      simp only [Ladder.usable, after_rungs_free]
      rfl

theorem usable_cons (ladder : Ladder Body) (rung : Rung Body) (rest : List (Rung Body))
    {credential : Credential Body}
    (came : (ladder.reach installation rung ∅).1 = .ok (some credential)) :
    ladder.usable installation (rung :: rest) = credential ::
      Ladder.remaining installation (ladder.after rung rest (.ok (some credential))) := by
  simp only [Ladder.usable, came, Ladder.remaining]
  congr 1
  split_ifs with ended
  · rw [List.isEmpty_iff.mp ended]
    rfl
  · cases rung with
    | ask name => simp [Ladder.after] at ended
    | ready | build => rfl

theorem usable_skips (ladder : Ladder Body) (rung : Rung Body) (rest : List (Rung Body))
    (came : (ladder.reach installation rung ∅).1 = .ok none) :
    ladder.usable installation (rung :: rest) = ladder.usable installation rest := by
  simp only [Ladder.usable, came]
  have after : ladder.after rung rest (.ok none) = { ladder with rungs := rest } := by
    cases rung <;> rfl
  rw [after, usable_rungs]

theorem build_reached (ladder : Ladder Body) (name : Text) :
    (ladder.reach installation (.build name) ∅).1 = .ok (ladder.built installation name) := by
  unfold Ladder.built Ladder.reach
  dsimp only
  cases installation.registry name <;> rfl

/-- The first pass: what can be built, in order, and then what the second pass
makes of it. -/
theorem usable_builds (order : List Text) (asks : List (Rung Body)) (ladder : Ladder Body) :
    ladder.usable installation (order.map .build ++ asks) =
      order.filterMap (ladder.built installation) ++
        Ladder.usable installation { ladder with
          found := ladder.found || !(order.filterMap (ladder.built installation)).isEmpty } asks := by
  induction order generalizing ladder with
  | nil => simp
  | cons name rest induction =>
      have came := build_reached installation ladder name
      rw [List.map_cons, List.cons_append]
      cases found : ladder.built installation name with
      | none =>
          rw [found] at came
          rw [usable_skips installation ladder _ _ came, induction, List.filterMap_cons_none found]
      | some credential =>
          rw [found] at came
          rw [usable_cons installation ladder _ _ came, List.filterMap_cons_some found]
          have later := induction { ladder with found := true }
          simp only [Ladder.remaining, Ladder.after, List.isEmpty_cons, Bool.not_false,
            Bool.or_true, List.cons_append, List.cons.injEq, true_and]
          rw [usable_rungs installation { ladder with found := true }, later]
          rfl

theorem usable_asks [Exchange Body] (presentable : Presentable installation) (order : List Text)
    (ladder : Ladder Body) :
    ladder.usable installation (order.map .ask) =
      (order.findSome? (ladder.supplied installation)).toList := by
  induction order with
  | nil => rfl
  | cons name rest induction =>
      obtain ⟨found, came, -⟩ := reach_presentable installation presentable ladder (.ask name) ∅
        trivial
      have supplied : ladder.supplied installation name = found := by
        rw [Ladder.supplied, came]
        rfl
      rw [List.map_cons, List.findSome?_cons, supplied]
      cases found with
      | none =>
          rw [usable_skips installation ladder _ _ came]
          exact induction
      | some credential => exact usable_cons installation ladder _ _ came

/-- What `select` yields: the offered mechanisms that can be built, in order of
preference; only where there is none, the first that somebody supplies the
material for. -/
theorem remaining_select [Exchange Body] (presentable : Presentable installation) (sec : Text)
    (config : Config) (username host : Text) :
    let ladder : Ladder Body := select sec config username host
    let order := preference config.authOrder (parseSecurityTrailer sec)
    let built := order.filterMap (ladder.built installation)
    ladder.remaining installation =
      if built = [] then (order.findSome? (ladder.supplied installation)).toList else built := by
  intro ladder order built
  have drained : ladder.remaining installation = built ++ Ladder.usable installation
      { ladder with found := false || !built.isEmpty } (order.map .ask) :=
    usable_builds installation order (order.map .ask) ladder
  rw [drained]
  split_ifs with none
  · rw [none, List.nil_append]
    exact usable_asks installation presentable order ladder
  · have found : (false || !built.isEmpty) = true := by
      cases shape : built with
      | nil => exact absurd shape none
      | cons => rfl
    rw [found, usable_asks installation presentable]
    have quiet : ∀ name, Ladder.supplied installation { ladder with found := true } name =
        Option.none := fun _ => rfl
    rw [funext quiet]
    simp

end Drained

end XRootDClient.Auth

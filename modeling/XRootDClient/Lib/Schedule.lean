import XRootDClient.Lib.Run

/-!
Schedules without an end. A schedule is fair when nobody is passed over for ever.
A system comes to its end under every fair schedule when each step brings a measure
down, or leaves it and everybody's part alone while somebody whose turns bring the
measure down has still to take one.
-/

set_option autoImplicit false

namespace XRootDClient.Lib.Schedule

open Run

variable {Label World : Type*} (step : Label → World → World)

/-- Whoever it is, and however late it is, they have a turn to come. -/
def Fair (schedule : Nat → Label) : Prop :=
  ∀ label start, ∃ moment, start ≤ moment ∧ schedule moment = label

def after (schedule : Nat → Label) (world : World) (moment : Nat) : World :=
  run step ((List.range moment).map schedule) world

theorem after_succ (schedule : Nat → Label) (world : World) (moment : Nat) :
    after step schedule world (moment + 1) =
      step (schedule moment) (after step schedule world moment) := by
  rw [after, List.range_succ, List.map_append, run_append]
  rfl

theorem after_invariant {Holds : World → Prop}
    (keeps : ∀ label world, Holds world → Holds (step label world)) (schedule : Nat → Label)
    {world : World} (holds : Holds world) (moment : Nat) :
    Holds (after step schedule world moment) := by
  induction moment with
  | zero => exact holds
  | succ moment induction =>
      rw [after_succ]
      exact keeps _ _ induction

/-- What a step does for the end: it brings the measure down, or it changes neither
the measure nor who is waited for, and a turn of theirs makes the wait shorter. -/
def Advances (measure wait : World → Nat) (helper : World → Label) (label : Label)
    (world : World) : Prop :=
  measure (step label world) < measure world ∨
    measure (step label world) = measure world ∧ helper (step label world) = helper world ∧
      wait (step label world) ≤ wait world ∧
      (label = helper world → wait (step label world) < wait world)

/-- A system whose steps all advance it comes to its end under every fair schedule. -/
theorem fair_ends {Holds Final : World → Prop} {measure wait : World → Nat}
    {helper : World → Label} (keeps : ∀ label world, Holds world → Holds (step label world))
    (advances : ∀ label world, Holds world → ¬Final world →
      Advances step measure wait helper label world)
    {schedule : Nat → Label} (fair : Fair schedule) {world : World} (holds : Holds world) :
    ∃ moment, Final (after step schedule world moment) := by
  -- who is waited for has a turn at some distance from here
  have turns : ∀ moment, ∃ distance,
      schedule (moment + distance) = helper (after step schedule world moment) := by
    intro moment
    obtain ⟨next, late, turn⟩ := fair (helper (after step schedule world moment)) moment
    exact ⟨next - moment, by rw [Nat.add_sub_cancel' late, turn]⟩
  have later : ∀ high long distance moment,
      measure (after step schedule world moment) = high →
      wait (after step schedule world moment) = long →
      schedule (moment + distance) = helper (after step schedule world moment) →
      ∃ moment, Final (after step schedule world moment) := by
    intro high
    induction high using Nat.strongRecOn with
    | ind high lower =>
        intro long
        induction long using Nat.strongRecOn with
        | ind long shorter =>
            intro distance
            induction distance with
            | zero =>
                intro moment measured waited turn
                by_cases final : Final (after step schedule world moment)
                · exact ⟨moment, final⟩
                have advance := advances (schedule moment) _
                  (after_invariant step keeps schedule holds moment) final
                rw [Advances, ← after_succ step, measured, waited] at advance
                obtain ⟨next, reached⟩ := turns (moment + 1)
                rcases advance with less | ⟨same, -, -, less⟩
                · exact lower _ less _ _ _ rfl rfl reached
                · exact shorter _ (less turn) _ _ same rfl reached
            | succ distance nearer =>
                intro moment measured waited turn
                by_cases final : Final (after step schedule world moment)
                · exact ⟨moment, final⟩
                have advance := advances (schedule moment) _
                  (after_invariant step keeps schedule holds moment) final
                rw [Advances, ← after_succ step, measured, waited] at advance
                rcases advance with less | ⟨same, kept, most, -⟩
                · obtain ⟨next, reached⟩ := turns (moment + 1)
                  exact lower _ less _ _ _ rfl rfl reached
                · have reached : schedule (moment + 1 + distance) =
                      helper (after step schedule world (moment + 1)) := by
                    rw [kept, ← turn, Nat.add_assoc, Nat.add_comm 1]
                  rcases Nat.lt_or_eq_of_le most with less | equal
                  · exact shorter _ less _ _ same rfl reached
                  · exact nearer _ same equal reached
  obtain ⟨distance, reached⟩ := turns 0
  exact later _ _ distance 0 rfl rfl reached

end XRootDClient.Lib.Schedule

import Mathlib.Data.List.Basic

/-!
Runs of a deterministic step function. A history keeps, for every step, the
world before it, its label and the world after it; a log is what the steps note
along the way. The rules carry an invariant, of the world alone or of the log
and the world together, through every run whose steps are all allowed.
-/

set_option autoImplicit false

namespace XRootDClient.Lib.Run

variable {Label World Note : Type*}

structure Entry (Label World : Type*) where
  before : World
  label : Label
  after : World

variable (step : Label → World → World)

def run : List Label → World → World
  | [], world => world
  | label :: rest, world => run rest (step label world)

def history : List Label → World → List (Entry Label World)
  | [], _ => []
  | label :: rest, world =>
      ⟨world, label, step label world⟩ :: history rest (step label world)

def log (note : Entry Label World → List Note) (labels : List Label) (world : World) :
    List Note :=
  (history step labels world).flatMap note

theorem run_append (first second : List Label) (world : World) :
    run step (first ++ second) world = run step second (run step first world) := by
  induction first generalizing world with
  | nil => rfl
  | cons label rest induction => exact induction (step label world)

theorem history_append (first second : List Label) (world : World) :
    history step (first ++ second) world =
      history step first world ++ history step second (run step first world) := by
  induction first generalizing world with
  | nil => rfl
  | cons label rest induction =>
      simp only [List.cons_append, history, run, induction]

/-- A history cut at an entry is the run cut at the step: what comes later is the
history of the rest. -/
theorem history_split {labels : List Label} {world : World} {first later : List (Entry Label World)}
    {entry : Entry Label World} (split : history step labels world = first ++ entry :: later) :
    ∃ before after, labels = before ++ entry.label :: after ∧ entry.before = run step before world ∧
      entry.after = step entry.label entry.before ∧ later = history step after entry.after ∧
      first = history step before world := by
  induction first generalizing labels world with
  | nil =>
      cases labels with
      | nil => cases split
      | cons label rest =>
          rw [history, List.nil_append, List.cons.injEq] at split
          obtain ⟨rfl, rfl⟩ := split
          exact ⟨[], rest, rfl, rfl, rfl, rfl, rfl⟩
  | cons head tail induction =>
      cases labels with
      | nil => cases split
      | cons label rest =>
          rw [history, List.cons_append, List.cons.injEq] at split
          obtain ⟨here, there⟩ := split
          obtain ⟨before, after, shape, reached, stepped, rest, past⟩ := induction there
          exact ⟨label :: before, after, by rw [shape]; rfl, reached, stepped, rest,
            by rw [history, ← here, ← past]⟩

theorem mem_history {labels : List Label} {world : World} {entry : Entry Label World}
    (member : entry ∈ history step labels world) :
    ∃ first second, labels = first ++ entry.label :: second ∧
      entry.before = run step first world ∧ entry.after = step entry.label entry.before := by
  obtain ⟨earlier, later, split⟩ := List.append_of_mem member
  obtain ⟨first, second, shape, before, after, -, -⟩ := history_split step split
  exact ⟨first, second, shape, before, after⟩

/-- What every allowed step keeps holds of the log and the world of every run
whose steps are allowed. -/
theorem log_invariant (note : Entry Label World → List Note)
    (Allowed : Entry Label World → Prop) (Holds : List Note → World → Prop)
    (keeps : ∀ noted world label, Allowed ⟨world, label, step label world⟩ → Holds noted world →
      Holds (noted ++ note ⟨world, label, step label world⟩) (step label world))
    (labels : List Label) (noted : List Note) (world : World)
    (allowed : ∀ entry ∈ history step labels world, Allowed entry) (holds : Holds noted world) :
    Holds (noted ++ log step note labels world) (run step labels world) := by
  induction labels generalizing noted world with
  | nil => simpa [log, history, run] using holds
  | cons label rest induction =>
      have first := keeps noted world label (allowed _ (by simp [history])) holds
      have later := induction _ _ (fun entry member => allowed entry (by simp [history, member]))
        first
      simpa [log, history, run] using later

theorem run_invariant (Allowed : Entry Label World → Prop) (Holds : World → Prop)
    (keeps : ∀ world label, Allowed ⟨world, label, step label world⟩ → Holds world →
      Holds (step label world))
    (labels : List Label) (world : World)
    (allowed : ∀ entry ∈ history step labels world, Allowed entry) (holds : Holds world) :
    Holds (run step labels world) :=
  log_invariant step (fun _ => ([] : List Unit)) Allowed (fun _ => Holds)
    (fun _ => keeps) labels [] world allowed holds

/-- Two runs of the same labels stay related as long as the first one's steps are allowed. -/
theorem run_related (Allowed : Entry Label World → Prop) (Related : World → World → Prop)
    (keeps : ∀ world other label, Allowed ⟨world, label, step label world⟩ → Related world other →
      Related (step label world) (step label other))
    (labels : List Label) (world other : World)
    (allowed : ∀ entry ∈ history step labels world, Allowed entry) (related : Related world other) :
    Related (run step labels world) (run step labels other) := by
  induction labels generalizing world other with
  | nil => exact related
  | cons label rest induction =>
      apply induction
      · exact fun entry member => allowed entry (List.mem_cons_of_mem _ member)
      · exact keeps world other label (allowed _ List.mem_cons_self) related

theorem history_invariant (Allowed : Entry Label World → Prop) (Holds : World → Prop)
    (keeps : ∀ world label, Allowed ⟨world, label, step label world⟩ → Holds world →
      Holds (step label world))
    (labels : List Label) (world : World)
    (allowed : ∀ entry ∈ history step labels world, Allowed entry) (holds : Holds world) :
    ∀ entry ∈ history step labels world, Holds entry.before := by
  intro entry member
  obtain ⟨first, second, split, before, -⟩ := mem_history step member
  rw [before]
  apply run_invariant step Allowed Holds keeps first world _ holds
  intro earlier inside
  apply allowed
  rw [split, history_append]
  exact List.mem_append_left _ inside

end XRootDClient.Lib.Run

import XRootDClient.Proto.Bringup
import XRootDClient.Proto.Signing

/-!
# Nothing goes out in clear that must not

The flags of the `kXR_protocol` reply are recorded once. From then on the
machine is either free to speak in clear, or encrypted, or silent: it waits for
the encryption or has failed. The invariant ties the states in which the machine
speaks, and the streams it could speak for, to the encryption the recorded flags
and the client's own wish demand.
-/

set_option autoImplicit false

namespace XRootDClient.Proto

open Lib Lib.BigEndian Lib.Stateful Lib.Run Auth Crypto

/-- The states in which the machine queues frames of its own or of its caller. -/
def State.speaks : State → Bool
  | .LOGIN | .BIND | .AUTH | .READY => true
  | _ => false

theorem Lawful.fewer {live left : Nat → Prop} {events : List Event}
    (lawful : Lawful live events left) (sid : Nat) (kept : left sid) : live sid := by
  induction lawful with
  | done fewer => exact fewer sid kept
  | event named later induction => exact (induction kept).1

namespace Machine

variable {Body : Type}

def Covered (machine : Machine Body) : Prop :=
  tlsDue machine = true → machine.tlsActive = true

structure Guarded (machine : Machine Body) : Prop where
  idle : machine.state.undecided = true → ∀ sid, ¬machine.inFlight sid
  speaking : machine.state.speaks = true → Covered machine
  flying : ∀ sid, machine.inFlight sid → Covered machine

def Silent (entry : Entry Move (Machine Body)) : Prop :=
  controlChunk entry = [] ∧ ∀ pathid, (entry.after.outPath.getD pathid []).drop
    (entry.before.outPath.getD pathid []).length = []

def Greeting (entry : Entry Move (Machine Body)) : Prop :=
  entry.label = .start ∧ controlChunk entry = greeting entry.before.wantTls ∧
    entry.after.outPath = entry.before.outPath

/-- A move that adds anything but the greeting does so under the encryption that
is due, and after the flags are known. -/
def Discreet (entry : Entry Move (Machine Body)) : Prop :=
  Silent entry ∨ Greeting entry ∨
    (entry.after.state.undecided = false ∧ Covered entry.after)

theorem silent_of_same {entry : Entry Move (Machine Body)}
    (out : entry.after.out = entry.before.out)
    (paths : entry.after.outPath = entry.before.outPath) : Silent entry := by
  refine ⟨by rw [controlChunk, out, List.drop_length], fun pathid => ?_⟩
  rw [paths, List.drop_length]

theorem silent_of_erase {entry : Entry Move (Machine Body)} {gone : Nat}
    (out : entry.after.out = entry.before.out)
    (paths : entry.after.outPath = entry.before.outPath.erase gone) : Silent entry := by
  refine ⟨by rw [controlChunk, out, List.drop_length], fun pathid => ?_⟩
  rw [paths]
  by_cases same : pathid = gone
  · simp [Dict.getD, same]
  · simp only [Dict.getD, Dict.get_erase_other _ same, List.drop_length]

theorem Guarded.shrink {before after : Machine Body} (guarded : Guarded before)
    (state : after.state = before.state) (due : tlsDue after = tlsDue before)
    (active : after.tlsActive = before.tlsActive)
    (fewer : ∀ sid, after.inFlight sid → before.inFlight sid) : Guarded after where
  idle early sid held := guarded.idle (by rw [← state, early]) sid (fewer sid held)
  speaking speaks := by
    intro wanted
    rw [active]
    exact guarded.speaking (by rw [← state, speaks]) (by rw [← due, wanted])
  flying sid held := by
    intro wanted
    rw [active]
    exact guarded.flying sid (fewer sid held) (by rw [← due, wanted])

theorem StreamsOnly.guarded {before after : Machine Body} (only : StreamsOnly before after)
    (guarded : Guarded before) (move : Move)
    (fewer : ∀ sid, after.inFlight sid → before.inFlight sid) :
    Guarded after ∧ Discreet ⟨before, move, after⟩ := by
  have due : tlsDue after = tlsDue before := by
    rw [tlsDue, tlsDue, only.wantTls, only.protocolInfo]
  exact ⟨guarded.shrink only.state due only.tlsActive fewer,
    .inl (silent_of_same only.out only.outPath)⟩

theorem drop_guarded (pathid : Nat) {before after : Machine Body}
    (only : StreamsOnly (dropOutbox pathid before) after) (guarded : Guarded before) (move : Move)
    (fewer : ∀ sid, after.inFlight sid → before.inFlight sid) :
    Guarded after ∧ Discreet ⟨before, move, after⟩ := by
  have due : tlsDue after = tlsDue before := by
    rw [tlsDue, tlsDue, only.wantTls, only.protocolInfo]
    rfl
  exact ⟨guarded.shrink only.state due only.tlsActive fewer,
    .inl (silent_of_erase only.out only.outPath)⟩

theorem Guarded.stop {before after : Machine Body} (guarded : Guarded before)
    (decided : after.state.undecided = false) (mute : after.state.speaks = false)
    (due : tlsDue after = tlsDue before) (active : after.tlsActive = before.tlsActive)
    (fewer : ∀ sid, after.inFlight sid → before.inFlight sid) : Guarded after where
  idle early := by
    rw [decided] at early
    cases early
  speaking speaks := by
    rw [mute] at speaks
    cases speaks
  flying sid held := by
    intro wanted
    rw [active]
    exact guarded.flying sid (fewer sid held) (by rw [← due, wanted])

theorem guarded_of_covered {machine : Machine Body} (decided : machine.state.undecided = false)
    (covered : Covered machine) : Guarded machine where
  idle early := by
    rw [decided] at early
    cases early
  speaking _ := covered
  flying _ _ := covered

section BringUp

variable {installation : Installation Body}

theorem LoginMove.guarded {before after : Machine Body} (covered : Covered before)
    (move : LoginMove installation before after) :
    Covered after ∧ after.state.undecided = false := by
  cases move with
  | binding | logging | unbound | unlogged => exact ⟨covered, rfl⟩

theorem LadderMove.guarded {before after : Machine Body} (decided : before.state.undecided = false)
    (covered : Covered before) (move : LadderMove before after) :
    Covered after ∧ after.state.undecided = false := by
  cases move with
  | sent | raised => exact ⟨covered, decided⟩
  | exhausted => exact ⟨covered, rfl⟩

variable [Exchange Body]

/-- What bring-up adds to the outbox it adds in a state that is decided, under
the encryption that is due. -/
theorem BringupMove.guarded {before after : Machine Body} {header : ResponseHeader} {body : Bytes}
    (guarded : Guarded before) (move : BringupMove installation before header body after) :
    Guarded after ∧ (after.out = before.out ∨
      (after.state.undecided = false ∧ Covered after)) := by
  cases move with
  | raised => exact ⟨guarded, .inl rfl⟩
  | failed => exact ⟨guarded.stop rfl rfl rfl rfl fun _ => id, .inl rfl⟩
  | shook was accepted =>
      have idle := guarded.idle (by rw [was]; rfl)
      refine ⟨⟨fun _ => idle, fun speaks => ?_, fun sid held => absurd held (idle sid)⟩, .inl rfl⟩
      cases speaks
  | refused info error was accepted parsed due lacking =>
      have idle := guarded.idle (by rw [was]; rfl)
      refine ⟨⟨fun _ => idle, fun speaks => ?_, fun sid held => absurd held (idle sid)⟩, .inl rfl⟩
      cases speaks
  | upgrade info reason was accepted parsed due has =>
      have idle := guarded.idle (by rw [was]; rfl)
      refine ⟨⟨fun _ => idle, fun speaks => ?_, fun sid held => absurd held (idle sid)⟩, .inl rfl⟩
      cases speaks
  | login info was accepted parsed clear move =>
      have covered : Covered (negotiate info before) := by
        intro wanted
        rw [clear] at wanted
        cases wanted
      obtain ⟨done, decided⟩ := move.guarded covered
      exact ⟨guarded_of_covered decided done, .inr ⟨decided, done⟩⟩
  | bound pathid was =>
      have covered := guarded.speaking (by rw [was]; rfl)
      exact ⟨guarded_of_covered rfl covered, .inl rfl⟩
  | entered login was =>
      have covered := guarded.speaking (by rw [was]; rfl)
      exact ⟨guarded_of_covered rfl covered, .inl rfl⟩
  | authenticated was =>
      have covered := guarded.speaking (by rw [was]; rfl)
      exact ⟨guarded_of_covered rfl covered, .inl rfl⟩
  | challenged login was accepted parsed asked move =>
      have covered : Covered { before with
          sessionId := login.sessid, offered := login.mechanisms, state := .AUTH } :=
        guarded.speaking (by rw [was]; rfl)
      obtain ⟨done, decided⟩ := LadderMove.guarded rfl covered move
      exact ⟨guarded_of_covered decided done, .inr ⟨decided, done⟩⟩
  | stepped was more move =>
      have covered := guarded.speaking (by rw [was]; rfl)
      obtain ⟨done, decided⟩ := move.guarded (by rw [was]; rfl) covered
      exact ⟨guarded_of_covered decided done, .inr ⟨decided, done⟩⟩

theorem BringupMove.decided {before after : Machine Body} {header : ResponseHeader} {body : Bytes}
    (move : BringupMove installation before header body after)
    (decided : before.state.undecided = false) :
    after.state.undecided = false ∧ after.protocolInfo = before.protocolInfo := by
  cases move with
  | raised => exact ⟨decided, rfl⟩
  | failed | bound | entered | authenticated => exact ⟨rfl, rfl⟩
  | shook was | refused _ _ was | upgrade _ _ was | login _ was =>
      rw [was] at decided
      cases decided
  | challenged login was accepted parsed asked move =>
      cases move with
      | sent | exhausted | raised => exact ⟨rfl, rfl⟩
  | stepped was more move =>
      cases move with
      | sent | raised => exact ⟨decided, rfl⟩
      | exhausted => exact ⟨rfl, rfl⟩

theorem TurnMove.guarded {pathid : Nat} {before after : Machine Body} (guarded : Guarded before)
    (move : TurnMove installation pathid before after) :
    Guarded after ∧ Discreet ⟨before, .turn pathid, after⟩ := by
  obtain ⟨events, reports⟩ := move.reports
  rcases move.dichotomy with only | ⟨_, _, _, _, framer, -, -, -, -, moved⟩
  · exact only.guarded guarded _ reports.lawful.fewer
  · have stored : Guarded (storeFramer pathid framer before) :=
      guarded.shrink rfl rfl rfl fun _ => id
    obtain ⟨done, quiet | covered⟩ := moved.guarded stored
    · have paths : after.outPath = before.outPath := by
        rw [moved.frame]
        rfl
      exact ⟨done, .inl (silent_of_same quiet paths)⟩
    · exact ⟨done, .inr (.inr covered)⟩

end BringUp

theorem SubmitMove.guarded {request : Request} {path : Text} {arriveOnPath : Bool}
    {before after : Machine Body} {issued : Option Nat} (guarded : Guarded before)
    (move : SubmitMove request path arriveOnPath before issued after) :
    Guarded after ∧ Discreet ⟨before, .submit request path arriveOnPath, after⟩ := by
  cases move with
  | refused => exact ⟨guarded, .inl (silent_of_same rfl rfl)⟩
  | exhausted | raised =>
      exact ⟨guarded.shrink rfl rfl rfl fun _ => id, .inl (silent_of_same rfl rfl)⟩
  | @issued sid free next frame signer ready acquired made =>
      have covered : Covered before := guarded.speaking (by rw [ready]; rfl)
      have same : ∀ machine : Machine Body,
          (enqueue request sid path arriveOnPath frame machine).state = machine.state ∧
          tlsDue (enqueue request sid path arriveOnPath frame machine) = tlsDue machine ∧
          (enqueue request sid path arriveOnPath frame machine).tlsActive =
            machine.tlsActive := by
        intro machine
        unfold enqueue
        dsimp only
        split_ifs <;> exact ⟨rfl, rfl, rfl⟩
      obtain ⟨state, due, active⟩ := same
        { before with free := free, nextSid := next, signer := signer }
      have decided : (enqueue request sid path arriveOnPath frame { before with
          free := free, nextSid := next, signer := signer }).state.undecided = false := by
        rw [state, ready]
        rfl
      have done : Covered (enqueue request sid path arriveOnPath frame { before with
          free := free, nextSid := next, signer := signer }) := by
        intro wanted
        rw [active]
        exact covered (by rw [due] at wanted; exact wanted)
      exact ⟨guarded_of_covered decided done, .inr (.inr ⟨decided, done⟩)⟩

theorem ResumeMove.guarded {streamid : Nat} {before after : Machine Body}
    (guarded : Guarded before) (move : ResumeMove streamid before after) :
    Guarded after ∧ Discreet ⟨before, .resume streamid, after⟩ := by
  cases move with
  | refused => exact ⟨guarded, .inl (silent_of_same rfl rfl)⟩
  | resent pending found =>
      have held : before.inFlight streamid := Dict.mem_keys_of_get found
      have covered : Covered before := guarded.flying streamid held
      have decided : before.state.undecided = false := by
        rw [← Bool.not_eq_true]
        exact fun early => guarded.idle early streamid held
      split
      · exact ⟨guarded_of_covered decided covered, .inr (.inr ⟨decided, covered⟩)⟩
      · exact ⟨guarded_of_covered decided covered, .inr (.inr ⟨decided, covered⟩)⟩

theorem CloseMove.guarded {graceful : Bool} {before after : Machine Body}
    (guarded : Guarded before) (move : CloseMove before after) :
    Guarded after ∧ Discreet ⟨before, .close graceful, after⟩ := by
  cases move with
  | exhausted | raised =>
      exact ⟨guarded.shrink rfl rfl rfl fun _ => id, .inl (silent_of_same rfl rfl)⟩
  | silent => exact ⟨guarded.stop rfl rfl rfl rfl fun _ => id, .inl (silent_of_same rfl rfl)⟩
  | farewell ready acquired encoded =>
      have covered : Covered before := guarded.speaking (by rw [ready]; rfl)
      exact ⟨guarded_of_covered rfl covered, .inr (.inr ⟨rfl, covered⟩)⟩

theorem StartMove.guarded {before after : Machine Body} (guarded : Guarded before)
    (move : StartMove before after) : Guarded after ∧ Discreet ⟨before, .start, after⟩ := by
  cases move with
  | refused => exact ⟨guarded, .inl (silent_of_same rfl rfl)⟩
  | greeted fresh =>
      have idle := guarded.idle (by rw [fresh]; rfl)
      refine ⟨⟨fun _ => idle, fun speaks => ?_, fun sid held => absurd held (idle sid)⟩,
        .inr (.inl ⟨rfl, ?_, rfl⟩)⟩
      · cases speaks
      · rw [controlChunk, List.drop_left]

theorem TlsMove.guarded {installation : Installation Body} {before after : Machine Body}
    (guarded : Guarded before) (move : TlsMove installation before after) :
    Guarded after ∧ Discreet ⟨before, .tlsEstablished, after⟩ := by
  cases move with
  | refused => exact ⟨guarded, .inl (silent_of_same rfl rfl)⟩
  | secured due move =>
      have covered : Covered { before with tlsActive := true } := fun _ => rfl
      obtain ⟨done, decided⟩ := move.guarded covered
      exact ⟨guarded_of_covered decided done, .inr (.inr ⟨decided, done⟩)⟩

section Run

variable [Exchange Body] (installation : Installation Body)

theorem step_guarded (move : Move) (machine : Machine Body) (guarded : Guarded machine) :
    Guarded (step installation move machine) ∧
      Discreet ⟨machine, move, step installation move machine⟩ := by
  cases move with
  | start => exact (start_move machine).guarded guarded
  | submit request path arriveOnPath =>
      exact (submit_move request path arriveOnPath machine).guarded guarded
  | resume streamid => exact (resume_move streamid machine).guarded guarded
  | close graceful => exact (close_move graceful machine).guarded guarded
  | tlsEstablished => exact (tls_established_move installation machine).guarded guarded
  | turn pathid => exact (turn_move installation pathid machine).guarded guarded
  | release streamid =>
      exact (release_only streamid machine).guarded guarded _ fun sid held =>
        ((in_flight_release streamid sid machine).mp held).2
  | forgetPath pathid =>
      exact drop_guarded pathid (forget_path_only pathid machine) guarded _ fun sid held =>
        ((in_flight_forget_path pathid sid machine).mp held).2
  | eof pathid =>
      obtain ⟨events, reports⟩ := eof_reports pathid machine
      simp only [step]
      rcases eof_cases pathid machine with ⟨-, -, only⟩ | ⟨-, -, only⟩ | ⟨-, only⟩
      · exact only.guarded guarded _ reports.lawful.fewer
      · have due : tlsDue (eof pathid machine) = tlsDue machine := by
          rw [tlsDue, tlsDue, only.wantTls, only.protocolInfo]
        refine ⟨guarded.stop ?_ ?_ due only.tlsActive reports.lawful.fewer,
          .inl (silent_of_same only.out only.outPath)⟩
        · rw [only.state]
          rfl
        · rw [only.state]
          rfl
      · exact drop_guarded pathid only guarded _ reports.lawful.fewer
  | pathDataToSend pathid =>
      exact ⟨guarded.shrink rfl rfl rfl fun _ => id, .inl (silent_of_erase rfl rfl)⟩
  | dataToSend =>
      refine ⟨guarded.shrink rfl rfl rfl fun _ => id, .inl ⟨?_, fun pathid => ?_⟩⟩
      · simp [controlChunk, step, dataToSend]
      · simp [step, dataToSend]
  | feed | nextEvent =>
      exact ⟨guarded.shrink rfl rfl rfl fun _ => id, .inl (silent_of_same rfl rfl)⟩

omit [Exchange Body] in
theorem StreamsOnly.recorded {before after : Machine Body} (only : StreamsOnly before after) :
    after.wantTls = before.wantTls ∧ (before.state.undecided = false →
      after.state.undecided = false ∧ after.protocolInfo = before.protocolInfo) :=
  ⟨only.wantTls, fun decided => ⟨by rw [only.state, decided], only.protocolInfo⟩⟩

omit [Exchange Body] in
theorem recorded_same {before after : Machine Body} (wish : after.wantTls = before.wantTls)
    (state : after.state = before.state) (flags : after.protocolInfo = before.protocolInfo) :
    after.wantTls = before.wantTls ∧ (before.state.undecided = false →
      after.state.undecided = false ∧ after.protocolInfo = before.protocolInfo) :=
  ⟨wish, fun decided => ⟨by rw [state, decided], flags⟩⟩

/-- The client's wish never changes, and the flags no longer once they are
known. -/
theorem StepMove.recorded {installation : Installation Body} {move : Move}
    {before after : Machine Body} (moved : StepMove installation before move after) :
    after.wantTls = before.wantTls ∧ (before.state.undecided = false →
      after.state.undecided = false ∧ after.protocolInfo = before.protocolInfo) := by
  cases moved with
  | start moved =>
      cases moved with
      | refused => exact recorded_same rfl rfl rfl
      | greeted fresh =>
          refine ⟨rfl, fun decided => ?_⟩
          rw [fresh] at decided
          cases decided
  | submit moved =>
      cases moved with
      | refused | exhausted | raised => exact recorded_same rfl rfl rfl
      | issued ready acquired made =>
          unfold enqueue
          dsimp only
          split_ifs <;> exact recorded_same rfl rfl rfl
  | resume moved =>
      cases moved with
      | refused => exact recorded_same rfl rfl rfl
      | resent pending found => split <;> exact recorded_same rfl rfl rfl
  | close moved =>
      cases moved with
      | exhausted | raised => exact recorded_same rfl rfl rfl
      | farewell | silent => exact ⟨rfl, fun _ => ⟨rfl, rfl⟩⟩
  | tlsEstablished moved =>
      cases moved with
      | refused => exact recorded_same rfl rfl rfl
      | secured due moved =>
          have covered : Covered { before with tlsActive := true } := fun _ => rfl
          obtain ⟨-, decided⟩ := moved.guarded covered
          refine ⟨by rw [moved.frame], fun _ => ⟨decided, by rw [moved.frame]⟩⟩
  | turn moved =>
      rcases moved.dichotomy with only | ⟨_, _, _, _, _, -, -, -, -, moved⟩
      · exact only.recorded
      · exact ⟨by rw [moved.frame]; rfl, moved.decided⟩
  | release streamid => exact (release_only streamid before).recorded
  | forgetPath pathid => exact (forget_path_only pathid before).recorded
  | eof pathid =>
      rcases eof_cases pathid before with ⟨-, -, only⟩ | ⟨-, -, only⟩ | ⟨-, only⟩
      · exact only.recorded
      · refine ⟨only.wantTls, fun _ => ⟨?_, only.protocolInfo⟩⟩
        rw [only.state]
        rfl
      · exact only.recorded
  | feed | dataToSend | pathDataToSend | nextEvent => exact recorded_same rfl rfl rfl

theorem run_recorded (moves : List Move) (machine : Machine Body) :
    (run (step installation) moves machine).wantTls = machine.wantTls ∧
      (machine.state.undecided = false →
        (run (step installation) moves machine).protocolInfo = machine.protocolInfo) := by
  induction moves generalizing machine with
  | nil => exact ⟨rfl, fun _ => rfl⟩
  | cons move rest induction =>
      obtain ⟨wish, flags⟩ := (step_move installation move machine).recorded
      obtain ⟨later, kept⟩ := induction (step installation move machine)
      refine ⟨by rw [run, later, wish], fun decided => ?_⟩
      rw [run, kept (flags decided).1, (flags decided).2]

theorem StepMove.finished {installation : Installation Body} {move : Move}
    {before after : Machine Body} (moved : StepMove installation before move after)
    (done : before.state = .FAILED ∨ before.state = .CLOSED) :
    after.state = before.state ∨
      ((∃ graceful, move = .close graceful) ∧ after.state = .CLOSED) := by
  have facts : before.state.bringingUp = false ∧ before.state ≠ .NEW ∧ before.state ≠ .TLS ∧
      before.state ≠ .READY := by
    rcases done with failed | closed
    · simp [failed, State.bringingUp]
    · simp [closed, State.bringingUp]
  obtain ⟨running, started, plain, unready⟩ := facts
  cases moved with
  | start moved =>
      cases moved with
      | refused => exact .inl rfl
      | greeted fresh => exact absurd fresh started
  | submit moved =>
      cases moved with
      | refused | exhausted | raised => exact .inl rfl
      | issued ready acquired made => exact absurd ready unready
  | resume moved =>
      cases moved with
      | refused => exact .inl rfl
      | resent pending found => split <;> exact .inl rfl
  | @close graceful _ moved =>
      cases moved with
      | exhausted | raised => exact .inl rfl
      | farewell | silent => exact .inr ⟨⟨graceful, rfl⟩, rfl⟩
  | tlsEstablished moved =>
      cases moved with
      | refused => exact .inl rfl
      | secured due moved => exact absurd due plain
  | turn moved => exact .inl (moved.only running).state
  | release streamid => exact .inl (release_only streamid before).state
  | forgetPath pathid => exact .inl (forget_path_only pathid before).state
  | eof pathid =>
      rcases eof_cases pathid before with ⟨-, -, only⟩ | ⟨-, open_, -⟩ | ⟨-, only⟩
      · exact .inl only.state
      · exact absurd done.symm open_
      · exact .inl only.state
  | feed | dataToSend | pathDataToSend | nextEvent => exact .inl rfl

/-- Nothing moves a machine out of failure but `close`, and nothing at all out of
closure. -/
theorem history_over (moves : List Move) (machine : Machine Body)
    (done : machine.state = .FAILED ∨ machine.state = .CLOSED) :
    (∀ entry ∈ history (step installation) moves machine,
      entry.after.state = .FAILED ∨ entry.after.state = .CLOSED) ∧
    ((∀ entry ∈ history (step installation) moves machine,
      ∀ graceful, entry.label ≠ .close graceful) →
        ∀ entry ∈ history (step installation) moves machine,
          entry.after.state = machine.state) := by
  induction moves generalizing machine with
  | nil => simp [history]
  | cons move rest induction =>
      have moved := (step_move installation move machine).finished done
      have still : (step installation move machine).state = .FAILED ∨
          (step installation move machine).state = .CLOSED := by
        rcases moved with same | ⟨-, closed⟩
        · rw [same]
          exact done
        · exact .inr closed
      obtain ⟨later, kept⟩ := induction (step installation move machine) still
      refine ⟨fun entry member => ?_, fun unclosed entry member => ?_⟩
      · rcases List.mem_cons.mp member with rfl | inside
        · exact still
        · exact later entry inside
      · have same : (step installation move machine).state = machine.state := by
          rcases moved with same | ⟨⟨graceful, closes⟩, -⟩
          · exact same
          · exact absurd closes (unclosed _ (List.mem_cons_self ..) graceful)
        rcases List.mem_cons.mp member with rfl | inside
        · exact same
        · rw [kept (fun other listed => unclosed other (by simp [history, listed])) entry inside,
            same]

omit [Exchange Body] in
theorem guarded_new (host : Text) (port : Nat) (config : Config)
    (credentials : Option (List (Credential Body))) (username : Text) (wantTls : Bool)
    (bindTo : Bytes) : Guarded (new host port config credentials username wantTls bindTo) := by
  refine ⟨fun _ sid held => ?_, fun speaks => ?_, fun sid held => ?_⟩
  · simp [inFlight, new] at held
  · cases speaks
  · simp [inFlight, new] at held

theorem ready_encrypted (host : Text) (port : Nat) (config : Config)
    (credentials : Option (List (Credential Body))) (username : Text) (wantTls : Bool)
    (bindTo : Bytes) (calls : List Call)
    (wanted : (new host port config credentials username wantTls bindTo).wantTls = true)
    (ready : (after installation calls
      (new host port config credentials username wantTls bindTo)).state = .READY) :
    (after installation calls
      (new host port config credentials username wantTls bindTo)).tlsActive = true := by
  have guarded := guarded_new host port config credentials username wantTls bindTo
  generalize new host port config credentials username wantTls bindTo =
    machine at wanted ready guarded ⊢
  have wish := (run_recorded installation (movesOf installation calls machine) machine).1
  have kept : Guarded (run (step installation) (movesOf installation calls machine) machine) :=
    run_invariant _ (fun _ => True) Guarded
      (fun world label _ held => (step_guarded installation label world held).1) _ machine
      (fun _ _ => trivial) guarded
  rw [run_moves_of] at wish kept
  apply kept.speaking
  · rw [ready]
    rfl
  · rw [tlsDue, wish, wanted, Bool.true_or]

theorem recorded_at_end {moves : List Move} {machine : Machine Body}
    {entry : Entry Move (Machine Body)}
    (member : entry ∈ history (step installation) moves machine)
    (decided : entry.after.state.undecided = false) :
    (run (step installation) moves machine).protocolInfo = entry.after.protocolInfo := by
  obtain ⟨first, second, rfl, before, after⟩ := mem_history (step installation) member
  rw [run_append, run, ← before, ← after]
  exact (run_recorded installation second entry.after).2 decided

theorem negotiated_entry {moves : List Move} {machine : Machine Body}
    {entry : Entry Move (Machine Body)} {info : ProtocolInfo}
    (member : entry ∈ history (step installation) moves machine)
    (negotiated : .negotiated info ∈ reported entry) :
    entry.after.state.undecided = false ∧ entry.after.protocolInfo = info ∧
      (tlsDue entry.after = true → hasTls info.flags = false → entry.after.state = .FAILED) := by
  obtain ⟨first, second, -, -, after⟩ := mem_history (step installation) member
  obtain ⟨before, move, reached⟩ := entry
  dsimp only at after
  subst after
  obtain ⟨pathid, rfl⟩ := admission_by_turn installation move before negotiated rfl
  obtain ⟨outer, inner, whole, body, framer, -, -, -, moved⟩ :=
    (turn_move installation pathid before).admission negotiated rfl
  exact moved.negotiated (.turn pathid) negotiated

/-- In every run of every machine: once encryption is wanted by the client or
demanded by the server's reply, nothing but the greeting is ever queued without
it. A reply that leaves encryption due and offers none fails the machine on the
spot; it never becomes ready afterwards, and stays failed until it is closed. -/
theorem nothing_in_clear (host : Text) (port : Nat) (config : Config)
    (credentials : Option (List (Credential Body))) (username : Text) (wantTls : Bool)
    (bindTo : Bytes) (calls : List Call) :
    let machine := new host port config credentials username wantTls bindTo
    let trace := traced installation calls machine
    (machine.wantTls = true ∨ (∃ entry ∈ trace, ∃ info, .negotiated info ∈ reported entry ∧
        demandsTls info.flags = true) →
      ∀ entry ∈ trace, entry.after.tlsActive = false → Silent entry ∨ Greeting entry) ∧
    (∀ first entry later info, trace = first ++ entry :: later →
      .negotiated info ∈ reported entry →
      machine.wantTls = true ∨ demandsTls info.flags = true → hasTls info.flags = false →
        entry.after.state = .FAILED ∧
        (∀ next ∈ later, next.after.state = .FAILED ∨ next.after.state = .CLOSED) ∧
        ((∀ next ∈ later, ∀ graceful, next.label ≠ .close graceful) →
          ∀ next ∈ later, next.after.state = .FAILED)) := by
  intro machine trace
  have due_of : ∀ entry ∈ trace, ∀ info, .negotiated info ∈ reported entry →
      machine.wantTls = true ∨ demandsTls info.flags = true → tlsDue entry.after = true := by
    intro entry member info negotiated demanded
    obtain ⟨first, second, split, before, after⟩ := mem_history _ member
    have wish : entry.after.wantTls = machine.wantTls := by
      rw [after, (step_move installation entry.label entry.before).recorded.1, before,
        (run_recorded installation first machine).1]
    obtain ⟨-, flags, -⟩ := negotiated_entry installation member negotiated
    rw [tlsDue, wish, flags]
    rcases demanded with own | theirs
    · rw [own, Bool.true_or]
    · rw [theirs, Bool.or_true]
  refine ⟨fun demanded entry member plain => ?_,
    fun first entry later info split negotiated demanded lacking => ?_⟩
  · obtain ⟨first, second, whole, before, after⟩ := mem_history _ member
    have guarded : Guarded entry.before := by
      rw [before]
      exact run_invariant _ (fun _ => True) Guarded
        (fun world label _ held => (step_guarded installation label world held).1) first machine
        (fun _ _ => trivial) (guarded_new host port config credentials username wantTls bindTo)
    have discreet := (step_guarded installation entry.label entry.before guarded).2
    rw [← after] at discreet
    rcases discreet with silent | greeting | ⟨decided, covered⟩
    · exact .inl silent
    · exact .inr greeting
    · exfalso
      have due : tlsDue entry.after = true := by
        rcases demanded with own | ⟨other, inside, info, negotiated, theirs⟩
        · have wish : entry.after.wantTls = machine.wantTls := by
            rw [after, (step_move installation entry.label entry.before).recorded.1, before,
              (run_recorded installation first machine).1]
          rw [tlsDue, wish, own, Bool.true_or]
        · obtain ⟨known, flags, -⟩ := negotiated_entry installation inside negotiated
          have final := recorded_at_end installation inside known
          rw [recorded_at_end installation member decided, flags] at final
          rw [tlsDue, final, theirs, Bool.or_true]
      rw [covered due] at plain
      cases plain
  · have member : entry ∈ trace := by
      rw [split]
      simp
    have failed := (negotiated_entry installation member negotiated).2.2
      (due_of entry member info negotiated demanded) lacking
    obtain ⟨-, rest, -, -, -, rfl, -⟩ := history_split _ split
    obtain ⟨done, kept⟩ := history_over installation rest entry.after (.inl failed)
    refine ⟨failed, done, fun unclosed next inside => ?_⟩
    rw [kept unclosed next inside, failed]

end Run

/-- A client that wants encryption, a server that has none: the machine fails,
and a later `close` takes it out of failure. -/
theorem close_leaves_failure :
    let machine : Machine OneShot := new (str "data") DEFAULT_PORT {} none [] true []
    let greeted : List Call := [.start, .receiveData (greets 1 []) 0]
    let installation := Installation.bare OneShot
    machine.wantTls = true ∧
      (∃ entry ∈ traced installation greeted machine, ∃ info,
        .negotiated info ∈ reported entry ∧ hasTls info.flags = false) ∧
      (after installation greeted machine).state = .FAILED ∧
      (after installation (greeted ++ [.close true]) machine).state ≠ .FAILED := by
  refine ⟨rfl, ?_, by decide +kernel, by decide +kernel⟩
  have negotiated : (traced (Installation.bare OneShot)
      [.start, .receiveData (greets 1 []) 0]
      (new (str "data") DEFAULT_PORT {} none [] true [])).any (fun entry =>
        (reported entry).any fun event => event =
          .negotiated { version := kXR_PROTOCOLVERSION, flags := 1 }) = true := by
    decide +kernel
  obtain ⟨entry, member, found⟩ := List.any_eq_true.mp negotiated
  obtain ⟨event, inside, same⟩ := List.any_eq_true.mp found
  exact ⟨entry, member, _, of_decide_eq_true same ▸ inside, by decide⟩

end Machine

end XRootDClient.Proto

import XRootDClient.Proto.Terminal

/-!
# The events of bring-up

Only a turn that dispatches a response to bring-up negotiates, asks for
encryption or declares the session ready; each such event pins down the move
that reported it.
-/

set_option autoImplicit false

namespace XRootDClient.Proto

open Lib Lib.BigEndian Lib.Stateful Lib.Run Auth

def State.undecided : State → Bool
  | .NEW | .HANDSHAKE | .PROTOCOL => true
  | _ => false

/-- The events that mark the way from the greeting to a session. -/
def Event.admission : Event → Bool
  | .negotiated _ | .needTls _ | .ready _ _ => true
  | _ => false

theorem Event.admission_nameless {event : Event} (marks : event.admission = true) :
    event.stream = none := by
  cases event <;> first | rfl | cases marks

namespace Machine

variable {Body : Type}

theorem reported_append {before after : Machine Body} {move : Move} {events : List Event}
    (queued : after.events = before.events ++ events) :
    reported ⟨before, move, after⟩ = events := by
  rw [reported, queued, List.drop_left]

theorem LadderMove.no_admission {before after : Machine Body} (moved : LadderMove before after)
    (move : Move) : ∀ event ∈ reported ⟨before, move, after⟩, event.admission = false := by
  intro event member
  cases moved with
  | sent | raised => simp [reported] at member
  | exhausted =>
      simp only [reported, noMechanism, fail, emit, List.drop_left, List.mem_singleton] at member
      rw [member]
      rfl

theorem eof_no_admission (pathid : Nat) (machine : Machine Body) :
    ∃ events, (eof pathid machine).events = machine.events ++ events ∧
      ∀ event ∈ events, event.admission = false := by
  unfold eof
  dsimp only
  split
  · unfold onEof
    split
    · exact ⟨[], by simp, by simp⟩
    · refine ⟨_, List.append_assoc _ _ _, fun event member => ?_⟩
      rcases List.mem_append.mp member with failure | last
      · obtain ⟨entry, -, rfl⟩ := List.mem_map.mp failure
        rfl
      · rw [List.mem_singleton.mp last]
        rfl
  · unfold onPathEof emit
    dsimp only
    rw [forget_path_frame]
    refine ⟨_, List.append_assoc _ _ _, fun event member => ?_⟩
    rcases List.mem_append.mp member with failure | last
    · obtain ⟨entry, -, rfl⟩ := List.mem_map.mp failure
      rfl
    · rw [List.mem_singleton.mp last]
      rfl

section BringUp

variable [Exchange Body] {installation : Installation Body}

/-- The reply that negotiates is recorded, and it fails the machine if
encryption is due and not on offer. -/
theorem BringupMove.negotiated {before after : Machine Body} {header : ResponseHeader}
    {body : Bytes} {info : ProtocolInfo}
    (moved : BringupMove installation before header body after) (move : Move)
    (member : .negotiated info ∈ reported ⟨before, move, after⟩) :
    after.state.undecided = false ∧ after.protocolInfo = info ∧
      (tlsDue after = true → hasTls info.flags = false → after.state = .FAILED) := by
  cases moved with
  | raised | shook => simp [reported] at member
  | failed => simp [reported, fail, emit] at member
  | bound | entered | authenticated => simp [reported, becomeReady, emit] at member
  | refused found error was accepted parsed due lacking =>
      have same : info = found := by
        simpa [reported, fail, negotiate, emit] using member
      rw [same]
      exact ⟨rfl, rfl, fun _ _ => rfl⟩
  | upgrade found reason was accepted parsed due has =>
      have same : info = found := by
        simpa [reported, negotiate, emit] using member
      rw [same, has]
      refine ⟨rfl, rfl, fun _ lacking => ?_⟩
      cases lacking
  | login found was accepted parsed clear moved =>
      have same : info = found := by
        rw [reported_append (show after.events = before.events ++ [.negotiated found]
          from moved.events)] at member
        simpa using member
      have due : tlsDue after = tlsDue (negotiate found before) := by
        rw [moved.frame]
        rfl
      rw [same, due, clear]
      refine ⟨?_, by rw [moved.frame]; rfl, fun wanted _ => ?_⟩
      · cases moved with
        | binding | logging | unbound | unlogged => rfl
      · cases wanted
  | challenged login was accepted parsed asked moved =>
      have plain := moved.no_admission move _ member
      cases plain
  | stepped was more moved =>
      have plain := moved.no_admission move _ member
      cases plain

/-- What a machine that becomes ready was waiting for, and what it took for a
yes. -/
theorem BringupMove.ready {before after : Machine Body} {header : ResponseHeader} {body : Bytes}
    {sessionId : Bytes} {mechanism : Text}
    (moved : BringupMove installation before header body after) (move : Move)
    (member : .ready sessionId mechanism ∈ reported ⟨before, move, after⟩) :
    after.state = .READY ∧ admitted header.status ∧
      (before.state = .BIND ∨
        (before.state = .LOGIN ∧ ∃ login, parseLogin body = .ok login ∧ login.sec = []) ∨
        (before.state = .AUTH ∧ header.status = kXR_ok)) ∧
      reported ⟨before, move, after⟩ = [.ready sessionId mechanism] := by
  cases moved with
  | raised | shook => simp [reported] at member
  | failed => simp [reported, fail, emit] at member
  | refused => simp [reported, fail, negotiate, emit] at member
  | upgrade => simp [reported, negotiate, emit] at member
  | login found was accepted parsed clear moved =>
      rw [reported_append (show after.events = before.events ++ [.negotiated found]
        from moved.events)] at member
      simp at member
  | challenged login was accepted parsed asked moved =>
      have plain := moved.no_admission move _ member
      cases plain
  | stepped was more moved =>
      have plain := moved.no_admission move _ member
      cases plain
  | bound pathid was accepted =>
      simp only [reported, becomeReady, emit, List.drop_left, List.mem_singleton] at member ⊢
      exact ⟨trivial, accepted, .inl was, by rw [member]⟩
  | entered login was accepted parsed done =>
      simp only [reported, becomeReady, emit, List.drop_left, List.mem_singleton] at member ⊢
      exact ⟨trivial, accepted, .inr (.inl ⟨was, login, parsed, done⟩), by rw [member]⟩
  | authenticated was accepted =>
      simp only [reported, becomeReady, emit, List.drop_left, List.mem_singleton] at member ⊢
      exact ⟨trivial, .inl accepted, .inr (.inr ⟨was, accepted⟩), by rw [member]⟩

theorem TurnMove.admission {pathid : Nat} {before after : Machine Body} {event : Event}
    (moved : TurnMove installation pathid before after)
    (member : event ∈ reported ⟨before, .turn pathid, after⟩) (marks : event.admission = true) :
    ∃ outer inner whole body framer,
      (before.framer pathid).next = .frame outer whole framer ∧
      content outer whole = .ok (.response inner body) ∧ before.state.bringingUp = true ∧
      BringupMove installation (storeFramer pathid framer before) inner body after := by
  have nameless := Event.admission_nameless marks
  cases moved with
  | refused | waited | orphan | garbled | unknown => simp [reported, storeFramer] at member
  | notice header body framer info =>
      simp only [reported, emit, storeFramer, List.drop_left, List.mem_singleton] at member
      rw [member] at marks
      cases marks
  | trailer sid data framer =>
      obtain ⟨events, reports, named⟩ := on_status_data_reports sid data
        (storeFramer pathid framer before)
      rw [reported_append (show _ = before.events ++ events from reports.queued)] at member
      have names := named event member
      rw [nameless] at names
      cases names
  | @stream outer inner whole body framer left pending changed cut opened running found move =>
      have held : (storeFramer pathid framer before).inFlight inner.streamid :=
        Dict.mem_keys_of_get found
      obtain ⟨events, reports, named⟩ := move.reports held
      rw [reported_append (show (storeFramer pathid left changed).events =
        before.events ++ events from reports.queued)] at member
      have names := named event member
      rw [nameless] at names
      cases names
  | bringup outer inner whole body framer cut opened waiting ran move =>
      exact ⟨outer, inner, whole, body, framer, cut, opened, waiting, move⟩

variable (installation)

theorem admission_by_turn (move : Move) (machine : Machine Body) {event : Event}
    (member : event ∈ reported ⟨machine, move, step installation move machine⟩)
    (marks : event.admission = true) : ∃ pathid, move = .turn pathid := by
  have silent : ∀ events, (step installation move machine).events = machine.events ++ events →
      (∀ event ∈ events, event.admission = false) → False := by
    intro events queued plain
    rw [reported_append queued] at member
    rw [plain event member] at marks
    cases marks
  cases move with
  | turn pathid => exact ⟨pathid, rfl⟩
  | nextEvent =>
      simp only [reported, step, nextEvent, List.drop_tail] at member
      rw [List.drop_eq_nil_of_le (by omega)] at member
      cases member
  | close graceful =>
      have moved := close_move graceful machine
      simp only [step] at member
      generalize final (close graceful machine) = after at moved member
      cases moved with
      | exhausted | raised => simp [reported] at member
      | farewell | silent =>
          simp only [reported, emit, List.drop_left, List.mem_singleton] at member
          rw [member] at marks
          cases marks
  | eof pathid =>
      obtain ⟨events, queued, plain⟩ := eof_no_admission pathid machine
      exact (silent events queued plain).elim
  | start => exact (silent [] (start_move machine).reports.queued (by simp)).elim
  | resume streamid => exact (silent [] (resume_move streamid machine).reports.queued (by simp)).elim
  | tlsEstablished =>
      exact (silent [] (tls_established_move installation machine).reports.queued (by simp)).elim
  | submit request path arriveOnPath =>
      refine (silent [] ?_ (by simp)).elim
      rw [List.append_nil]
      exact (submit_move request path arriveOnPath machine).reports.1
  | release streamid =>
      refine (silent [] ?_ (by simp)).elim
      simp only [step]
      rw [release_frame, List.append_nil]
  | forgetPath pathid =>
      refine (silent [] ?_ (by simp)).elim
      simp only [step]
      rw [forget_path_frame, List.append_nil]
  | feed | dataToSend | pathDataToSend =>
      exact (silent [] (List.append_nil _).symm (by simp)).elim

end BringUp

end Machine

end XRootDClient.Proto

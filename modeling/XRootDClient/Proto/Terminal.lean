import XRootDClient.Proto.Streams

/-!
# One terminal event for each request

The log of a run holds the stream ids `submit` issued and the events the machine
reported, in order. A stream is ended in a log when a terminal event names it
and no later `submit` issued it again. Streams in flight are never ended, and
only streams in flight are ever named, which is the whole of the argument.
-/

set_option autoImplicit false

namespace XRootDClient.Proto

open Lib Lib.BigEndian Lib.Stateful Lib.Run Auth

inductive Note
  | issued (sid : Nat)
  | reported (event : Event)

namespace Note

def endsStream (sid : Nat) : Note → Bool
  | .issued _ => false
  | .reported event => event.ends sid

/-- Whether a stream that was ended, or was not, is ended after the note. -/
def endedAfter (sid : Nat) (ended : Bool) : Note → Bool
  | .issued given => ended && given != sid
  | .reported event => ended || event.ends sid

def ended (log : List Note) (sid : Nat) : Bool := log.foldl (endedAfter sid) false

theorem ended_append (first second : List Note) (sid : Nat) :
    ended (first ++ second) sid = second.foldl (endedAfter sid) (ended first sid) := by
  rw [ended, List.foldl_append]
  rfl

/-- Every event of the log names a stream that had not ended when it was
reported. -/
def Orderly (log : List Note) : Prop :=
  ∀ first event rest, log = first ++ .reported event :: rest →
    ∀ sid, event.stream = some sid → ended first sid = false

theorem stays_ended (log : List Note) (sid : Nat) (unissued : .issued sid ∉ log) :
    log.foldl (endedAfter sid) true = true := by
  induction log with
  | nil => rfl
  | cons note rest induction =>
      rw [List.mem_cons, not_or] at unissued
      cases note with
      | issued given =>
          have other : given ≠ sid := fun same => unissued.1 (by rw [same])
          have kept : endedAfter sid true (.issued given) = true := by
            simp [endedAfter, other]
          rw [List.foldl_cons, kept]
          exact induction unissued.2
      | reported event => simpa [endedAfter] using induction unissued.2

theorem Orderly.quiet {log first middle last : List Note} {event : Event} {sid : Nat}
    (orderly : Orderly log) (split : log = first ++ .reported event :: (middle ++ last))
    (ends : event.ends sid = true) (unissued : .issued sid ∉ middle) (later : Event)
    (member : .reported later ∈ middle) : later.stream ≠ some sid := by
  intro names
  obtain ⟨before, after, rfl⟩ := List.append_of_mem member
  have whole : log = (first ++ .reported event :: before) ++
      .reported later :: (after ++ last) := by
    rw [split]
    simp
  have open_ := orderly _ _ _ whole sid names
  have absent : .issued sid ∉ before := fun inside => unissued (by simp [inside])
  rw [ended_append, List.foldl_cons] at open_
  have closed : endedAfter sid (ended first sid) (.reported event) = true := by
    simp [endedAfter, ends]
  rw [closed, stays_ended before sid absent] at open_
  cases open_

theorem Orderly.ends_once {log first middle last : List Note} {sid : Nat}
    (orderly : Orderly log) (split : log = first ++ (middle ++ last))
    (unissued : .issued sid ∉ middle) : (middle.filter (endsStream sid)).length ≤ 1 := by
  by_contra several
  obtain ⟨one, two, more, found⟩ : ∃ one two more,
      middle.filter (endsStream sid) = one :: two :: more := by
    match shape : middle.filter (endsStream sid) with
    | [] => simp [shape] at several
    | [one] => simp [shape] at several
    | one :: two :: more => exact ⟨one, two, more, rfl⟩
  obtain ⟨before, rest, rfl, -, ends, tail⟩ := List.filter_eq_cons_iff.mp found
  cases one with
  | issued given => cases ends
  | reported event =>
      have second : two ∈ rest.filter (endsStream sid) := by simp [tail]
      obtain ⟨member, again⟩ := List.mem_filter.mp second
      cases two with
      | issued given => cases again
      | reported later =>
          have names : later.stream = some sid := by
            simp only [endsStream, Event.ends, Bool.and_eq_true, beq_iff_eq] at again
            exact again.2
          have whole : log = (first ++ before) ++ .reported event :: (rest ++ last) := by
            rw [split]
            simp
          have absent : .issued sid ∉ rest := fun inside => unissued (by simp [inside])
          exact orderly.quiet whole ends absent later member names

end Note

namespace Machine

variable {Body : Type}

theorem lawful_failures (streams : List (Nat × Pending)) (error : Exception)
    {live left : Nat → Prop} (unique : (streams.map Prod.fst).Nodup)
    (held : ∀ sid ∈ streams.map Prod.fst, live sid)
    (fewer : ∀ sid, left sid → live sid ∧ sid ∉ streams.map Prod.fst) :
    Lawful live (streams.map fun entry =>
      .failed (some entry.1) (some entry.2.request) error) left := by
  induction streams generalizing live with
  | nil => exact .done fun sid kept => (fewer sid kept).1
  | cons entry rest induction =>
      rw [List.map_cons, List.nodup_cons] at unique
      refine .event (fun sid names => ?_) (induction unique.2 (fun sid member => ?_) ?_)
      · cases names
        exact held entry.1 (by simp)
      · refine ⟨held sid (by simp only [List.map_cons, List.mem_cons, member, or_true]), ?_⟩
        have other : entry.1 ≠ sid := fun same => unique.1 (same ▸ member)
        simp [Event.ends, Event.stream, Event.terminal, other]
      · intro sid kept
        obtain ⟨live, absent⟩ := fewer sid kept
        rw [List.map_cons, List.mem_cons, not_or] at absent
        refine ⟨⟨live, ?_⟩, absent.2⟩
        simp [Event.ends, Event.stream, Event.terminal, Ne.symm absent.1]

theorem on_eof_reports (machine : Machine Body) :
    ∃ events, Reports machine (onEof machine) events := by
  unfold onEof
  split
  · exact ⟨[], reports_silent rfl fun _ => id⟩
  · refine ⟨_, List.append_assoc _ _ _, ?_⟩
    have failures := lawful_failures machine.pending.entries
      (.connectionError (str "connection closed by peer")) machine.pending.unique
      (fun sid member => member) (fun sid (kept : False) => kept.elim)
    refine failures.append (.nameless (fun sid kept => ?_) (by simp [Event.stream]))
    simp [inFlight] at kept

theorem on_path_eof_reports (pathid : Nat) (machine : Machine Body) :
    ∃ events, Reports machine (onPathEof pathid machine) events := by
  let error : Exception :=
    .connectionError (str "data path " ++ Text.ofNat pathid ++ str " closed by peer")
  let failed : Machine Body := { machine with
    events := machine.events ++ (streamsOn pathid machine).map fun entry =>
      .failed (some entry.1) (some entry.2.request) error }
  have unique : ((streamsOn pathid machine).map Prod.fst).Nodup :=
    machine.pending.unique.sublist (List.filter_sublist.map Prod.fst)
  have first : Reports machine (forgetPath pathid failed)
      ((streamsOn pathid machine).map fun entry =>
        .failed (some entry.1) (some entry.2.request) error) := by
    refine ⟨?_, lawful_failures _ error unique (fun sid member => ?_) fun sid kept => ?_⟩
    · rw [forget_path_frame]
    · obtain ⟨pending, found, -⟩ := (mem_streams_on pathid sid machine).mp member
      exact Dict.mem_keys_of_get found
    · have parts := (in_flight_forget_path pathid sid failed).mp kept
      exact ⟨parts.2, parts.1⟩
  have second : Reports (forgetPath pathid failed) (onPathEof pathid machine)
      [.pathLost pathid (str "data path " ++ Text.ofNat pathid ++ str " closed by peer")] :=
    reports_nameless rfl rfl (by simp [Event.stream])
  exact ⟨_, first.trans second⟩

theorem eof_reports (pathid : Nat) (machine : Machine Body) :
    ∃ events, Reports machine (eof pathid machine) events := by
  unfold eof
  dsimp only
  split
  · obtain ⟨events, done⟩ := on_eof_reports
      { machine with framers := machine.framers.setDefault pathid {} }
    exact ⟨events, done.queued, done.lawful⟩
  · obtain ⟨events, done⟩ := on_path_eof_reports pathid
      { machine with framers := machine.framers.setDefault pathid {} }
    exact ⟨events, done.queued, done.lawful⟩

section Moves

variable [Exchange Body] (installation : Installation Body)

def issues (move : Move) (machine : Machine Body) : Option Nat :=
  match move with
  | .submit request path arriveOnPath => returned (submit request path arriveOnPath machine)
  | _ => none

def reported (entry : Entry Move (Machine Body)) : List Event :=
  entry.after.events.drop entry.before.events.length

def notes (entry : Entry Move (Machine Body)) : List Note :=
  (issues entry.label entry.before).toList.map .issued ++ (reported entry).map .reported

def logged (calls : List Call) (machine : Machine Body) : List Note :=
  (traced installation calls machine).flatMap notes

omit [Exchange Body] in
theorem enqueue_table (request : Request) (sid : Nat) (path : Text) (arriveOnPath : Bool)
    (frame : Bytes) (machine : Machine Body) :
    (enqueue request sid path arriveOnPath frame machine).events = machine.events ∧
      (enqueue request sid path arriveOnPath frame machine).pending =
        machine.pending.set sid (pendingOf request path frame) := by
  unfold enqueue
  dsimp only
  split_ifs <;> exact ⟨rfl, rfl⟩

omit [Exchange Body] in
theorem SubmitMove.reports {request : Request} {path : Text} {arriveOnPath : Bool}
    {before after : Machine Body} {issued : Option Nat}
    (move : SubmitMove request path arriveOnPath before issued after) :
    after.events = before.events ∧
      ∀ sid, after.inFlight sid → before.inFlight sid ∨ issued = some sid := by
  cases move with
  | refused | exhausted | raised => exact ⟨rfl, fun sid held => .inl held⟩
  | issued ready acquired made =>
      refine ⟨(enqueue_table ..).1, fun sid held => ?_⟩
      rw [inFlight, (enqueue_table ..).2, Dict.mem_keys_set] at held
      rcases held with same | old
      · exact .inr (by rw [same])
      · exact .inl old

omit [Exchange Body] in
theorem StartMove.reports {before after : Machine Body} (move : StartMove before after) :
    Reports before after [] := by
  cases move <;> exact reports_silent rfl fun _ => id

omit [Exchange Body] in
theorem ResumeMove.reports {streamid : Nat} {before after : Machine Body}
    (move : ResumeMove streamid before after) : Reports before after [] := by
  cases move with
  | refused => exact reports_silent rfl fun _ => id
  | resent pending found =>
      split
      · exact reports_silent rfl fun _ => id
      · exact reports_silent rfl fun _ => id

omit [Exchange Body] in
theorem CloseMove.reports {before after : Machine Body} (move : CloseMove before after) :
    ∃ events, Reports before after events := by
  cases move with
  | exhausted | raised => exact ⟨[], reports_silent rfl fun _ => id⟩
  | farewell | silent => exact ⟨[_], reports_nameless rfl rfl (by simp [Event.stream])⟩

omit [Exchange Body] in
theorem TlsMove.reports {installation : Installation Body} {before after : Machine Body}
    (move : TlsMove installation before after) : Reports before after [] := by
  cases move with
  | refused => exact reports_silent rfl fun _ => id
  | secured due move =>
      refine reports_silent move.events fun sid held => ?_
      rw [move.frame] at held
      exact held

/-- A move either takes an event off the queue or reports lawfully, and only
what it issues joins the streams in flight. -/
theorem step_reports (move : Move) (machine : Machine Body) :
    (move = .nextEvent) ∨ (issues move machine = none ∧
      ∃ events, Reports machine (step installation move machine) events) ∨
    ((step installation move machine).events = machine.events ∧
      ∀ sid, (step installation move machine).inFlight sid →
        machine.inFlight sid ∨ issues move machine = some sid) := by
  cases move with
  | nextEvent => exact .inl rfl
  | submit request path arriveOnPath =>
      exact .inr (.inr (submit_move request path arriveOnPath machine).reports)
  | start => exact .inr (.inl ⟨rfl, [], (start_move machine).reports⟩)
  | resume streamid => exact .inr (.inl ⟨rfl, [], (resume_move streamid machine).reports⟩)
  | close graceful => exact .inr (.inl ⟨rfl, (close_move graceful machine).reports⟩)
  | tlsEstablished =>
      exact .inr (.inl ⟨rfl, [], (tls_established_move installation machine).reports⟩)
  | turn pathid => exact .inr (.inl ⟨rfl, (turn_move installation pathid machine).reports⟩)
  | release streamid =>
      refine .inr (.inl ⟨rfl, [], reports_silent ?_ fun sid held => ?_⟩)
      · simp only [step]
        rw [release_frame]
      · exact ((in_flight_release streamid sid machine).mp held).2
  | eof pathid => exact .inr (.inl ⟨rfl, eof_reports pathid machine⟩)
  | forgetPath pathid =>
      refine .inr (.inl ⟨rfl, [], reports_silent ?_ fun sid held => ?_⟩)
      · simp only [step]
        rw [forget_path_frame]
      · exact ((in_flight_forget_path pathid sid machine).mp held).2
  | feed | dataToSend | pathDataToSend =>
      exact .inr (.inl ⟨rfl, [], reports_silent rfl fun _ => id⟩)

/-- The log is orderly, and no stream in flight has ended in it. -/
def Accounted (log : List Note) (machine : Machine Body) : Prop :=
  Note.Orderly log ∧ ∀ sid, machine.inFlight sid → Note.ended log sid = false

omit [Exchange Body] in
theorem accounted_reports (events : List Event) (log : List Note) {live left : Nat → Prop}
    (orderly : Note.Orderly log) (open_ : ∀ sid, live sid → Note.ended log sid = false)
    (lawful : Lawful live events left) :
    Note.Orderly (log ++ events.map .reported) ∧
      ∀ sid, left sid → Note.ended (log ++ events.map .reported) sid = false := by
  induction lawful generalizing log with
  | done fewer =>
      rw [List.map_nil, List.append_nil]
      exact ⟨orderly, fun sid kept => open_ sid (fewer sid kept)⟩
  | @event live left event rest named later induction =>
      have shape : log ++ (event :: rest).map Note.reported =
          (log ++ [.reported event]) ++ rest.map .reported := by simp
      rw [shape]
      apply induction
      · intro first other after split sid names
        rcases List.eq_nil_or_concat after with empty | ⟨before, final, concat⟩
        · subst empty
          obtain ⟨same, last⟩ := List.append_inj' split rfl
          cases last
          rw [← same]
          exact open_ sid (named sid names)
        · subst concat
          rw [List.concat_eq_append, ← List.cons_append, ← List.append_assoc] at split
          exact orderly _ _ _ (List.append_inj' split rfl).1 sid names
      · intro sid both
        rw [Note.ended_append]
        simp [Note.endedAfter, open_ sid both.1, both.2]

theorem step_accounted (log : List Note) (move : Move) (machine : Machine Body)
    (accounted : Accounted log machine) :
    Accounted (log ++ notes ⟨machine, move, step installation move machine⟩)
      (step installation move machine) := by
  obtain ⟨orderly, open_⟩ := accounted
  rcases step_reports installation move machine with drain | ⟨unissued, events, done⟩ | ⟨same, joined⟩
  · subst drain
    have silent : notes ⟨machine, .nextEvent, step installation .nextEvent machine⟩ = [] := by
      simp [notes, issues, reported, step, nextEvent]
    rw [silent, List.append_nil]
    exact ⟨orderly, open_⟩
  · have noted : notes ⟨machine, move, step installation move machine⟩ =
        events.map .reported := by
      simp [notes, unissued, reported, done.queued]
    rw [noted]
    exact accounted_reports events log orderly open_ done.lawful
  · have noted : notes ⟨machine, move, step installation move machine⟩ =
        (issues move machine).toList.map .issued := by
      simp [notes, reported, same]
    rw [noted]
    cases issued : issues move machine with
    | none =>
        simp only [Option.toList_none, List.map_nil, List.append_nil]
        refine ⟨orderly, fun sid held => ?_⟩
        rcases joined sid held with old | new
        · exact open_ sid old
        · rw [issued] at new
          cases new
    | some sid =>
        simp only [Option.toList_some, List.map_cons, List.map_nil]
        refine ⟨?_, fun other held => ?_⟩
        · intro first event after split named names
          rcases List.eq_nil_or_concat after with empty | ⟨before, final, concat⟩
          · subst empty
            cases (List.append_inj' split rfl).2
          · subst concat
            rw [List.concat_eq_append, ← List.cons_append, ← List.append_assoc] at split
            exact orderly _ _ _ (List.append_inj' split rfl).1 named names
        · rw [Note.ended_append]
          rcases joined other held with old | new
          · simp [Note.endedAfter, open_ other old]
          · rw [issued, Option.some.injEq] at new
            simp [Note.endedAfter, new]

theorem run_accounted (calls : List Call) (machine : Machine Body)
    (idle : machine.pending = ∅) :
    Accounted (logged installation calls machine) (after installation calls machine) := by
  rw [← run_moves_of]
  have start : Accounted [] machine := by
    refine ⟨fun first event rest split => ?_, fun sid held => ?_⟩
    · simp at split
    · simp [inFlight, idle] at held
  exact log_invariant (step installation) notes (fun _ => True) Accounted
    (fun noted world label _ => step_accounted installation noted label world) _ [] machine
    (fun _ _ => trivial) start

omit [Exchange Body] in
theorem eof_closes (machine : Machine Body) (open_ : machine.state ≠ .CLOSED)
    (sound : machine.state ≠ .FAILED) :
    ∃ failures reason,
      (eof 0 machine).events = machine.events ++ failures ++ [.disconnected reason] ∧
      (∀ event ∈ failures, ∃ sid request error, event = .failed (some sid) (some request) error) ∧
      failures.map Event.stream = machine.pending.keys.map some ∧
      (eof 0 machine).pending = ∅ := by
  have running : ¬(machine.state = .CLOSED ∨ machine.state = .FAILED) := by simp [open_, sound]
  refine ⟨machine.pending.entries.map fun entry =>
    .failed (some entry.1) (some entry.2.request)
      (.connectionError (str "connection closed by peer")), str "connection closed by peer", ?_⟩
  simp only [eof, if_true, onEof, if_neg running]
  refine ⟨trivial, fun event member => ?_, ?_, trivial⟩
  · obtain ⟨entry, -, rfl⟩ := List.mem_map.mp member
    exact ⟨_, _, _, rfl⟩
  · simp only [List.map_map, Dict.keys]
    rfl

/-- In every run, from a new machine on: between two issues of a stream id at
most one terminal event names it, nothing names it after its terminal event, and
the end of the control link fails each stream in flight once, reports the
disconnection and empties the table. -/
theorem one_terminal_event (host : Text) (port : Nat) (config : Config)
    (credentials : Option (List (Credential Body))) (username : Text) (wantTls : Bool)
    (bindTo : Bytes) (calls : List Call) :
    let machine := new host port config credentials username wantTls bindTo
    let log := logged installation calls machine
    let reached := after installation calls machine
    let lost := after installation (calls ++ [.receiveData [] 0]) machine
    (∀ sid first middle last, log = first ++ .issued sid :: (middle ++ last) →
      .issued sid ∉ middle → (middle.filter (Note.endsStream sid)).length ≤ 1) ∧
    (∀ sid first event middle last, log = first ++ .reported event :: (middle ++ last) →
      event.ends sid = true → .issued sid ∉ middle →
        ∀ later, .reported later ∈ middle → later.stream ≠ some sid) ∧
    (reached.state ≠ .CLOSED → reached.state ≠ .FAILED → ∃ failures reason,
      lost.events = reached.events ++ failures ++ [.disconnected reason] ∧
      (∀ event ∈ failures, ∃ sid request error, event = .failed (some sid) (some request) error) ∧
      failures.map Event.stream = reached.pending.keys.map some ∧
      (failures.map Event.stream).Nodup ∧ lost.pending = ∅) := by
  intro machine log reached lost
  have accounted : Accounted log reached := run_accounted installation calls machine rfl
  refine ⟨fun sid first middle last split unissued => ?_,
    fun sid first event middle last split ends unissued later member => ?_,
    fun open_ sound => ?_⟩
  · have whole : log = (first ++ [.issued sid]) ++ (middle ++ last) := by
      rw [split]
      simp
    exact accounted.1.ends_once whole unissued
  · exact accounted.1.quiet split ends unissued later member
  · have same : lost = eof 0 reached := by
      simp only [lost, after, run_append, run, perform, receive_data_run, if_true]
      rfl
    obtain ⟨failures, reason, queued, failed, named, emptied⟩ := eof_closes reached open_ sound
    refine ⟨failures, reason, by rw [same, queued], failed, named, ?_, by rw [same, emptied]⟩
    rw [named]
    exact reached.pending.keys_nodup.map (Option.some_injective Nat)

end Moves

end Machine

end XRootDClient.Proto

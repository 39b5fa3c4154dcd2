import XRootDClient.Session.Pieces
import XRootDClient.Session.Waits

/-!
# Streaming and accumulating

What a call makes of an answer. The loop that waits counts and passes on the pieces since
the last resend, and gives back what the machine has collected. The two, and what the server
has sent since the last resend, are the same exactly when nothing was sent before it.
-/

set_option autoImplicit false

namespace XRootDClient.Sync

open Lib Lib.BigEndian Lib.Stateful Auth Proto

variable {Body : Type}

namespace Session

theorem set_aside_machine {event : Event} (whole : event.losesPath = false)
    (session : Session Body) : (final (setAside event session)).machine = session.machine := by
  cases event with
  | pathLost pathid reason => cases whole
  | failed streamid request error => cases streamid <;> rfl
  | completed | chunk | redirected | waiting | negotiated | needTls | ready | attention
    | disconnected => rfl

theorem sort_machine (sid : Nat) (events : List Event) (session : Session Body)
    (whole : ∀ event ∈ events, event.losesPath = false) :
    (final (sort sid events session)).machine = session.machine := by
  induction events generalizing session with
  | nil => rfl
  | cons event rest induction =>
      obtain ⟨first, others⟩ := List.forall_mem_cons.mp whole
      unfold sort
      split_ifs
      · have later := induction session others
        rw [run_bind]
        cases sorted : sort sid rest session with
        | ok mine left =>
            rw [sorted] at later
            exact later
        | error error left =>
            rw [sorted] at later
            exact later
      · have put := set_aside_machine first session
        rw [run_bind]
        cases done : setAside event session with
        | ok value left =>
            rw [done] at put
            exact (induction left others).trans put
        | error error left =>
            rw [done] at put
            exact put

variable [Exchange Body] (installation : Installation Body)

theorem pump_returns {link : Nat} {arrival : Arrival} {session after : Session Body}
    {events : List Event} (pumped : pump installation link arrival session = .ok events after) :
    ∃ machine data fed, OutOnly session.machine machine ∧ arrival.received = .ok data ∧
      Machine.receiveData installation data link machine = .ok () fed ∧ events = fed.events ∧
      after.machine = { fed with events := [] } := by
  obtain ⟨machine, only, flushed⟩ := flush_final arrival.fault session
  unfold pump at pumped
  obtain ⟨value, sent, flush, pumped⟩ := bind_returns pumped
  rw [flush] at flushed
  cases flushed
  rw [run_bind, run_get] at pumped
  dsimp only at pumped
  split_ifs at pumped
  · cases pumped
  · cases received : arrival.received with
    | error error =>
        rw [received] at pumped
        cases pumped
    | ok data =>
        rw [received] at pumped
        dsimp only at pumped
        rw [run_bind, onMachine] at pumped
        dsimp only at pumped
        cases taken : Machine.receiveData installation data link machine with
        | error error fed =>
            rw [taken] at pumped
            cases pumped
        | ok value fed =>
            rw [taken] at pumped
            cases pumped
            exact ⟨machine, data, fed, only, rfl, taken, rfl, rfl⟩

theorem listen_tells {sid link : Nat} {data wire : Bytes} {rest : List Sent} {buffer : Bytes}
    {arrival : Arrival} {session after : Session Body} {mine : List Event}
    (follows : Follows sid link (data ++ wire) rest buffer session.machine)
    (whole : ∀ event ∈ session.machine.events, event.losesPath = false)
    (none : ofStream sid session.machine.events = [])
    (received : arrival.received = .ok data) (some : data ≠ [])
    (listened : session.listen installation sid link arrival = .ok mine after) :
    ∃ early later, rest = early ++ later ∧ TellsAll sid buffer (early.map Sent.frame) mine ∧
      Follows sid link wire later (buffer ++ (early.map Sent.frame).flatMap ServerFrame.payload)
        after.machine ∧ after.machine.events = [] := by
  unfold listen at listened
  obtain ⟨events, middle, pumped, sorted⟩ := bind_returns listened
  obtain ⟨machine, given, fed, only, same, taken, rfl, left⟩ := pump_returns installation pumped
  rw [received] at same
  cases same
  rw [Machine.receive_data_run, if_neg some] at taken
  have started : Follows sid link wire rest buffer (Machine.feed data link machine) := by
    have sent := follows.only only
    refine ⟨sent.running, ?_, sent.answer, ?_⟩
    · rw [Machine.feed_cursor]
      exact sent.reads.arrives
    · rw [Machine.feed_cursor]
      exact sent.held
  obtain ⟨early, later, told, split, tells, queued, reached⟩ :=
    parse_tells installation _ started taken
  have queue : fed.events = session.machine.events ++ told := by
    rw [queued]
    exact congrArg (· ++ told) only.events
  have kept : (final (sort sid fed.events middle)).machine = middle.machine := by
    apply sort_machine
    rw [queue]
    exact List.forall_mem_append.mpr ⟨whole, fun event member => (tells.stream event member).2⟩
  have heard := sort_mine sid _ sorted
  rw [sorted, final_ok, left] at kept
  have all : ofStream sid told = told :=
    List.filter_eq_self.mpr fun event member => by simp [(tells.stream event member).1]
  have filtered : ofStream sid fed.events = told := by
    rw [queue, ofStream, List.filter_append]
    exact (congrArg₂ (· ++ ·) none all)
  rw [kept, heard, filtered]
  exact ⟨early, later, split, tells, reached.silenced, rfl⟩

end Session

/-- The pieces that were passed on since the request was last sent again. -/
def sinceResend (trace : List Action) : List Bytes :=
  trace.foldl (fun passed action =>
    match action with
    | .passed data => passed ++ [data]
    | .slept _ => passed
    | .resent => []) []

theorem since_passed (trace : List Action) (data : Bytes) :
    sinceResend (trace ++ [.passed data]) = sinceResend trace ++ [data] := by
  simp [sinceResend]

theorem since_resent (trace : List Action) : sinceResend (trace ++ [.resent]) = [] := by
  simp [sinceResend]

/-- The loop has counted and passed on what was sent since the last resend. -/
structure Streaming (caller : Caller) (done : List ServerFrame) (progress : Progress) : Prop where
  counted : progress.streamed = (current done).length
  passed : caller.onChunk.isSome = true →
    (sinceResend progress.trace).flatten = current done

structure Delivered (caller : Caller) (frames : List ServerFrame) (trace : List Action)
    (result : Result) : Prop where
  data : result.data = frames.flatMap ServerFrame.payload
  passed : caller.onChunk.isSome = true → abandoned frames = [] →
    (sinceResend trace).flatten = current frames

section Loop

variable {caller : Caller} {sid : Nat}

theorem pass_since (data : Bytes) (progress : Progress) :
    (pass caller data progress).2.streamed = progress.streamed ∧
      (caller.onChunk.isSome = true → (sinceResend (pass caller data progress).2.trace).flatten =
        (sinceResend progress.trace).flatten ++ data) := by
  unfold pass
  cases caller.onChunk with
  | none => exact ⟨rfl, fun never => by cases never⟩
  | some onChunk =>
      refine ⟨rfl, fun _ => ?_⟩
      dsimp only
      rw [since_passed, List.flatten_append]
      simp

theorem Streaming.delivers {done : List ServerFrame} {frame : ServerFrame} {progress : Progress}
    (streaming : Streaming caller done progress) (goes : asksToWait frame = false)
    {trace : List Action} {result : Result}
    (data : result.data = (done ++ [frame]).flatMap ServerFrame.payload)
    (passed : caller.onChunk.isSome = true → (sinceResend trace).flatten =
      (sinceResend progress.trace).flatten ++ result.data.drop progress.streamed) :
    Delivered caller (done ++ [frame]) trace result := by
  refine ⟨data, fun asked none => ?_⟩
  have whole := abandoned_current (done ++ [frame])
  rw [none, List.nil_append, current_piece done goes] at whole
  rw [passed asked, streaming.passed asked, data, streaming.counted, ← whole, List.drop_left,
    current_piece done goes]

theorem resend_streaming {seconds : ℚ} {progress : Progress} {session : Session Body}
    {frame : ServerFrame} (done : List ServerFrame) (waits : asksToWait frame = true) :
    (∃ after machine, resend caller sid seconds progress session =
        (none, after, { session with machine }) ∧ OutOnly session.machine machine ∧
        Streaming caller (done ++ [frame]) after) ∨
      ∃ error after left, resend caller sid seconds progress session =
        (some (.raised error), after, left) := by
  unfold resend
  dsimp only
  split_ifs
  · exact Or.inr ⟨_, _, _, rfl⟩
  · obtain ⟨resumed, first, left⟩ := Session.resume_final sid session
    cases done : Session.onMachine (Machine.resume sid) session with
    | error error after => exact Or.inr ⟨_, _, _, rfl⟩
    | ok value after =>
        rw [done] at left
        obtain rfl : after = { session with machine := resumed } := left
        obtain ⟨flushed, second, later⟩ := Session.flush_final
          (caller.resends progress.waits) { session with machine := resumed }
        dsimp only
        cases sent : Session.flush (caller.resends progress.waits)
            { session with machine := resumed } with
        | error error after => exact Or.inr ⟨_, _, _, rfl⟩
        | ok value after =>
            rw [sent] at later
            obtain rfl : after = { session with machine := flushed } := later
            refine Or.inl ⟨_, flushed, rfl, first.trans second, ?_, fun _ => ?_⟩
            · rw [current_wait _ waits]
              rfl
            · rw [current_wait _ waits, since_resent]
              rfl

theorem heed_streaming {done : List ServerFrame} {frame : ServerFrame} {event : Event}
    {progress : Progress} (session : Session Body)
    (tells : Tells sid (done.flatMap ServerFrame.payload) frame event)
    (streaming : Streaming caller done progress) :
    (∃ after machine, heed caller sid event progress session =
        (none, after, { session with machine }) ∧ OutOnly session.machine machine ∧
        Streaming caller (done ++ [frame]) after) ∨
      ∃ exit after left, heed caller sid event progress session = (some exit, after, left) ∧
        ∀ result, exit = .returned result →
          Last sid frame ∧ Delivered caller (done ++ [frame]) after.trace result := by
  cases tells with
  | chunk request goes =>
      obtain ⟨same, passed⟩ := @pass_since caller frame.payload progress
      unfold heed
      dsimp only
      cases told : pass caller frame.payload progress with
      | mk raises left =>
          rw [told] at same passed
          cases raises with
          | some error => exact Or.inr ⟨_, _, _, rfl, fun result never => by cases never⟩
          | none =>
              refine Or.inl ⟨_, session.machine, rfl, OutOnly.refl _, ?_, fun asked => ?_⟩
              · dsimp only at same ⊢
                rw [current_piece _ goes, List.length_append, same, streaming.counted]
              · rw [current_piece _ goes, ← streaming.passed asked]
                exact passed asked
  | wait request seconds message waits =>
      unfold heed
      dsimp only
      split_ifs
      · exact Or.inr ⟨_, _, _, rfl, fun result never => by cases never⟩
      · rcases @resend_streaming Body caller sid seconds
          { progress with waits := progress.waits + 1 } session frame done waits with
          goes | ⟨error, after, left, raised⟩
        · exact Or.inl goes
        · exact Or.inr ⟨_, after, left, raised, fun result never => by cases never⟩
  | later request seconds goes none =>
      refine Or.inl ⟨progress, session.machine, rfl, OutOnly.refl _, ?_, ?_⟩
      · rw [current_piece _ goes, none, List.append_nil]
        exact streaming.counted
      · rw [current_piece _ goes, none, List.append_nil]
        exact streaming.passed
  | last request status goes ends =>
      have data : done.flatMap ServerFrame.payload ++ frame.payload =
          (done ++ [frame]).flatMap ServerFrame.payload := by
        simp
      obtain ⟨-, passed⟩ := @pass_since caller
        ((done.flatMap ServerFrame.payload ++ frame.payload).drop progress.streamed) progress
      unfold heed
      dsimp only
      split_ifs with asked
      · cases told : pass caller ((done.flatMap ServerFrame.payload ++ frame.payload).drop
            progress.streamed) progress with
        | mk raises left =>
            rw [told] at passed
            cases raises with
            | some error => exact Or.inr ⟨_, _, _, rfl, fun result never => by cases never⟩
            | none =>
                refine Or.inr ⟨_, _, _, rfl, fun result same => ⟨ends, ?_⟩⟩
                cases same
                exact streaming.delivers goes data passed
      · refine Or.inr ⟨_, _, _, rfl, fun result same => ⟨ends, ?_⟩⟩
        cases same
        apply streaming.delivers goes data
        intro wanted
        have short : ¬progress.streamed <
            (done.flatMap ServerFrame.payload ++ frame.payload).length := by
          simpa [wanted] using asked
        rw [List.drop_eq_nil_of_le (Nat.le_of_not_lt short), List.append_nil]

theorem handle_streaming {done now : List ServerFrame} {events : List Event}
    {progress : Progress} (session : Session Body)
    (tells : TellsAll sid (done.flatMap ServerFrame.payload) now events)
    (streaming : Streaming caller done progress) :
    (∃ after machine, handle caller sid events progress session =
        (none, after, { session with machine }) ∧ OutOnly session.machine machine ∧
        Streaming caller (done ++ now) after) ∨
      ∃ exit after left, handle caller sid events progress session = (some exit, after, left) ∧
        ∀ result, exit = .returned result → ∃ early frame later, now = early ++ frame :: later ∧
          Last sid frame ∧ Delivered caller (done ++ early ++ [frame]) after.trace result := by
  generalize collected : done.flatMap ServerFrame.payload = buffer at tells
  induction tells generalizing done progress session with
  | nil =>
      refine Or.inl ⟨progress, session.machine, rfl, OutOnly.refl _, ?_⟩
      rw [List.append_nil]
      exact streaming
  | @cons buffer frame event frames events first rest induction =>
      rw [← collected] at first
      unfold handle
      rcases heed_streaming session first streaming with
        ⟨after, machine, heeded, only, goes⟩ | ⟨exit, after, left, heeded, gives⟩
      · rw [heeded]
        dsimp only
        have more : (done ++ [frame]).flatMap ServerFrame.payload = buffer ++ frame.payload := by
          rw [← collected]
          simp
        rcases induction { session with machine } goes more with
          ⟨last, final, handled, later, streams⟩ | ⟨exit, last, left, handled, gives⟩
        · refine Or.inl ⟨last, final, handled, only.trans later, ?_⟩
          rw [List.append_cons]
          exact streams
        · refine Or.inr ⟨exit, last, left, handled, fun result same => ?_⟩
          obtain ⟨early, ending, others, split, ends, delivered⟩ := gives result same
          refine ⟨frame :: early, ending, others, ?_, ends, ?_⟩
          · rw [split]
            rfl
          · rw [List.append_cons done]
            exact delivered
      · rw [heeded]
        refine Or.inr ⟨exit, after, left, rfl, fun result same => ?_⟩
        obtain ⟨ends, delivered⟩ := gives result same
        refine ⟨[], frame, frames, rfl, ends, ?_⟩
        rw [List.append_nil]
        exact delivered

variable [Exchange Body] (installation : Installation Body)

/-- What was received, and nothing of it was an end or an error. -/
inductive Receives : List Arrival → Bytes → Prop
  | nil : Receives [] []
  | cons {arrival : Arrival} {rest : List Arrival} {data later : Bytes}
      (received : arrival.received = .ok data) (some : data ≠ []) (others : Receives rest later) :
      Receives (arrival :: rest) (data ++ later)

theorem await_streaming {link : Nat} {frames done now : List ServerFrame} {rest : List Sent}
    {arrivals : List Arrival} {bytes wire : Bytes} {events : List Event} {progress : Progress}
    {session : Session Body} {result : Result} (answer : Answer sid frames)
    (split : frames = done ++ now ++ rest.map Sent.frame)
    (tells : TellsAll sid (done.flatMap ServerFrame.payload) now events)
    (streaming : Streaming caller done progress) (receives : Receives arrivals bytes)
    (follows : Follows sid link (bytes ++ wire) rest
      ((done ++ now).flatMap ServerFrame.payload) session.machine)
    (whole : ∀ event ∈ session.machine.events, event.losesPath = false)
    (none : Session.ofStream sid session.machine.events = [])
    (returned : (await caller sid installation link arrivals events progress session).1 =
      some (.returned result)) :
    Delivered caller frames
      (await caller sid installation link arrivals events progress session).2.1.trace result := by
  induction receives generalizing done now rest events progress session with
  | nil =>
      unfold await at returned ⊢
      rcases handle_streaming session tells streaming with
        ⟨after, machine, handled, -⟩ | ⟨exit, after, left, handled, gives⟩
      · rw [handled] at returned
        cases returned
      · rw [handled] at returned ⊢
        cases returned
        obtain ⟨early, frame, later, cut, ends, delivered⟩ := gives result rfl
        rw [cut] at split
        rw [answer.whole split ends]
        exact delivered
  | @cons arrival others data later received some receives induction =>
      unfold await at returned ⊢
      rcases handle_streaming session tells streaming with
        ⟨after, machine, handled, only, streams⟩ | ⟨exit, after, left, handled, gives⟩
      · rw [handled] at returned ⊢
        dsimp only at returned ⊢
        cases listened : Session.listen installation sid link arrival { session with machine } with
        | error error left =>
            rw [listened] at returned
            cases returned
        | ok mine left =>
            rw [listened] at returned
            dsimp only at returned ⊢
            rw [List.append_assoc] at follows
            obtain ⟨early, remaining, cut, told, further, empty⟩ := Session.listen_tells installation
              (follows.only only) (by rw [only.events]; exact whole)
              (by rw [only.events]; exact none) received some listened
            have still : frames = done ++ now ++ early.map Sent.frame ++
                remaining.map Sent.frame := by
              rw [split, cut]
              simp
            apply induction still told streams _ (by rw [empty]; simp) (by rw [empty]; rfl) returned
            rw [List.flatMap_append]
            exact further
      · rw [handled] at returned ⊢
        cases returned
        obtain ⟨early, frame, later, cut, ends, delivered⟩ := gives result rfl
        rw [cut] at split
        rw [answer.whole split ends]
        exact delivered

end Loop

namespace Session

theorem issued_empty {request : Request} {path : Text} {arriveOnPath : Bool}
    {session left : Session Body} {sid : Nat}
    (issued : issues request path arriveOnPath session = some (sid, left)) :
    ∃ pending, left.machine.pending.get? sid = some pending ∧ pending.buffer = [] := by
  unfold issues at issued
  split_ifs at issued
  cases done : onMachine (Machine.submit request path (session.onPath request arriveOnPath))
      session with
  | error error after =>
      rw [done] at issued
      cases issued
  | ok value after =>
      rw [done] at issued
      cases issued
      obtain ⟨given, same⟩ := on_machine_returned done
      have move := Machine.submit_move request path (session.onPath request arriveOnPath)
        session.machine
      dsimp only at move
      rw [same]
      generalize final (Machine.submit request path (session.onPath request arriveOnPath)
        session.machine) = after at *
      generalize Machine.returned (Machine.submit request path
        (session.onPath request arriveOnPath) session.machine) = answered at *
      cases move with
      | refused | exhausted | raised => cases given
      | issued =>
          cases given
          rw [(Machine.enqueue_table _ _ _ _ _ _).2]
          exact ⟨_, Dict.get_set_self _ _ _, rfl⟩

/-- Nothing is left over for a stream, and its link is between frames. -/
structure Clear (sid link : Nat) (session : Session Body) : Prop where
  stale : session.stale sid = 0
  buffer : (session.machine.framer link).buffer = []
  header : (session.machine.framer link).header = none
  trailer : (session.machine.framer link).needTrailer = 0

instance (sid link : Nat) (session : Session Body) : Decidable (Clear sid link session) :=
  decidable_of_iff (session.stale sid = 0 ∧ (session.machine.framer link).buffer = [] ∧
      (session.machine.framer link).header = none ∧
      (session.machine.framer link).needTrailer = 0)
    ⟨fun known => ⟨known.1, known.2.1, known.2.2.1, known.2.2.2⟩,
      fun clear => ⟨clear.stale, clear.buffer, clear.header, clear.trailer⟩⟩

/-- What was passed on since the last resend is the result, and the result is what was sent
since. -/
def Agree (caller : Caller) (frames : List ServerFrame) (trace : List Action) (result : Result) :
    Prop :=
  (caller.onChunk.isSome = true → (sinceResend trace).flatten = result.data) ∧
    result.data = current frames

theorem Delivered.agree {caller : Caller} {frames : List ServerFrame} {trace : List Action}
    {result : Result} (delivered : Delivered caller frames trace result) :
    Agree caller frames trace result ↔ abandoned frames = [] := by
  have whole := abandoned_current frames
  constructor
  · rintro ⟨-, data⟩
    have both : abandoned frames ++ current frames = current frames := by
      rw [whole, ← delivered.data, data]
    exact List.append_left_eq_self.mp both
  · intro none
    rw [none, List.nil_append] at whole
    have data : result.data = current frames := delivered.data.trans whole.symm
    refine ⟨fun asked => ?_, data⟩
    rw [data]
    exact delivered.passed asked none

variable [Exchange Body] (installation : Installation Body)

/-- What was streamed since the last resend, the result, and what the server has sent since
are the same exactly when all that it had sent before is empty. -/
theorem streamed_iff {session left : Session Body} (reached : Reached installation session)
    (caller : Caller) (request : Request) (path : Text) (arriveOnPath : Bool) {sid : Nat}
    (issued : issues request path arriveOnPath session = some (sid, left))
    (clear : Clear sid (answersOn request (session.onPath request arriveOnPath)) left)
    {frames : List ServerFrame} (answer : Answer sid frames) {arrivals : List Arrival}
    {bytes : Bytes} (receives : Receives arrivals bytes)
    (sent : bytes <+: frames.flatMap ServerFrame.bytes) {result : Result}
    (returned : (execute installation caller request path arriveOnPath arrivals session).1 =
      some (.returned result)) :
    Agree caller frames
        (execute installation caller request path arriveOnPath arrivals session).2.1.trace result ↔
      abandoned frames = [] := by
  apply Delivered.agree
  rcases execute_cases installation caller request path arriveOnPath arrivals reached.kempt with
    ⟨other, after, again, ran, kempt, -⟩ | ⟨error, after, refused, -⟩
  · rw [issued] at again
    cases again
    obtain ⟨wire, rest⟩ := sent
    obtain ⟨pending, found, empty⟩ := issued_empty issued
    have none : left.parked sid = [] ∧ ofStream sid left.machine.events = [] := by
      have stale := Nat.add_eq_zero_iff.mp clear.stale
      exact ⟨List.length_eq_zero_iff.mp stale.1, List.length_eq_zero_iff.mp stale.2⟩
    have sends : (frames.map fun frame => Sent.mk 0 Option.none frame).map Sent.frame = frames := by
      rw [List.map_map]
      exact List.map_id frames
    have follows : Follows sid (answersOn request (session.onPath request arriveOnPath))
        (bytes ++ wire) (frames.map fun frame => Sent.mk 0 Option.none frame) []
        left.machine := by
      constructor
      · exact kempt.running
      · apply Reads.between _ clear.header clear.trailer
        rw [clear.buffer, List.nil_append, rest, List.flatMap_map]
        rfl
      · rw [sends]
        exact Or.inr answer
      · exact fun sent later head => ⟨pending, found, empty, fun due => absurd clear.trailer due⟩
    have delivers := @await_streaming Body caller sid _ installation
      (answersOn request (session.onPath request arriveOnPath)) frames [] [] _ arrivals bytes wire []
      {} (left.unpark sid) result answer sends.symm (.nil _) ⟨rfl, fun _ => rfl⟩ receives follows
      kempt.whole none.2
    rw [ran] at returned ⊢
    rw [← none.1] at delivers
    exact delivers returned
  · rw [issued] at refused
    cases refused

/-- A frame of stream 4 with a short body, and no data behind it. -/
def plain (status : Nat) (body : Bytes) (narrow : status < 0x10000 := by decide)
    (bounded : body.length < 256 ^ 4 := by decide)
    (behind : (0 : Int) = dataBehind ⟨4, status, body.length⟩ body := by decide) : ServerFrame where
  header := ⟨4, status, body.length⟩
  body := body
  data := []
  streamid := by show 4 < 0x10000; decide
  status := narrow
  dlen := rfl
  bounded := bounded
  behind := behind

def arriving (frames : List ServerFrame) : List Arrival :=
  frames.map fun frame => { received := .ok frame.bytes }

theorem arriving_receives (frames : List ServerFrame) :
    Receives (arriving frames) (frames.flatMap ServerFrame.bytes) := by
  induction frames with
  | nil => exact .nil
  | cons frame rest induction =>
      refine .cons rfl (fun empty => ?_) induction
      have length := congrArg List.length empty
      simp [ServerFrame.bytes] at length

def taker : Caller where
  onChunk := some fun _ => none

def unbroken : List ServerFrame :=
  [plain kXR_wait [0, 0, 0, 0], plain kXR_oksofar [1, 2], plain kXR_ok [3]]

theorem unbroken_answer : Answer 4 unbroken := by
  refine .piece ?_ (.piece ?_ (.last ?_))
  · exact ⟨⟨4, kXR_wait, 4⟩, [0, 0, 0, 0], rfl, rfl, Or.inr (Or.inl rfl)⟩
  · exact ⟨⟨4, kXR_oksofar, 2⟩, [1, 2], rfl, rfl, Or.inl rfl⟩
  · exact ⟨⟨4, kXR_ok, 1⟩, [3], rfl, rfl, Or.inl rfl⟩

/-- A ping answered by these frames, on a session that is idle. -/
def pinged (frames : List ServerFrame) : Outcome OneShot :=
  execute (Installation.bare OneShot) taker Request.Ping [] false (arriving frames) (idle {})

theorem unbroken_streamed :
    Reached (Installation.bare OneShot) (idle {}) ∧
      (pinged unbroken).1 = some (.returned ⟨[1, 2, 3], none⟩) ∧
      Agree taker unbroken (pinged unbroken).2.1.trace ⟨[1, 2, 3], none⟩ := by
  have reached := idle_reached {} (by decide +kernel) (by decide +kernel)
  have returned : (pinged unbroken).1 = some (.returned ⟨[1, 2, 3], none⟩) := by
    decide +kernel
  have clear : ((issues Request.Ping [] false (idle {})).any fun issued =>
      decide (issued.1 = 4) && decide (Clear 4
        (answersOn Request.Ping ((idle {}).onPath Request.Ping false)) issued.2)) = true := by
    decide +kernel
  refine ⟨reached, returned, ?_⟩
  cases issued : issues Request.Ping [] false (idle {}) with
  | none =>
      rw [issued] at clear
      cases clear
  | some pair =>
      obtain ⟨sid, left⟩ := pair
      rw [issued] at clear
      simp only [Option.any_some, Bool.and_eq_true, decide_eq_true_eq] at clear
      obtain ⟨rfl, clear⟩ := clear
      have none : abandoned unbroken = [] := by decide +kernel
      rw [pinged] at returned ⊢
      exact (streamed_iff _ reached taker Request.Ping [] false issued clear unbroken_answer
        (arriving_receives unbroken) (List.prefix_refl _) returned).mpr none

/-- A piece, and then a wait: the piece is in the result of the answer that was started over. -/
def broken : List ServerFrame :=
  [plain kXR_oksofar [1, 2], plain kXR_wait [0, 0, 0, 0], plain kXR_ok [3]]

theorem broken_answer : Answer 4 broken := by
  refine .piece ?_ (.piece ?_ (.last ?_))
  · exact ⟨⟨4, kXR_oksofar, 2⟩, [1, 2], rfl, rfl, Or.inl rfl⟩
  · exact ⟨⟨4, kXR_wait, 4⟩, [0, 0, 0, 0], rfl, rfl, Or.inr (Or.inl rfl)⟩
  · exact ⟨⟨4, kXR_ok, 1⟩, [3], rfl, rfl, Or.inl rfl⟩

theorem started_over_kept :
    Reached (Installation.bare OneShot) (idle {}) ∧ Answer 4 broken ∧
      (pinged broken).1 = some (.returned ⟨[1, 2, 3], none⟩) ∧ current broken = [3] ∧
      ¬Agree taker broken (pinged broken).2.1.trace ⟨[1, 2, 3], none⟩ := by
  have sent : current broken = [3] := by decide +kernel
  refine ⟨idle_reached {} (by decide +kernel) (by decide +kernel), broken_answer,
    by decide +kernel, sent, fun agree => ?_⟩
  rw [Agree, sent] at agree
  exact absurd agree.2 (by decide)

end Session

end XRootDClient.Sync

import XRootDClient.Proto.Admission
import XRootDClient.Proto.Cursor

/-!
# Frame boundaries

A server writes a sequence of frames, each with the raw data it announces behind
it. A link is synchronised when what is left in its buffer, together with what
the server has yet to send, starts at the boundary its cursor stands at. Every
turn keeps a link synchronised as long as each frame that announces data is for
a stream in flight: the data of a stream that is not in flight is scheduled
nowhere, and the cursor goes on as if it were the next frame.
-/

set_option autoImplicit false

namespace XRootDClient.Proto

open Lib Lib.BigEndian Lib.Stateful Lib.Run Auth

/-- How much raw data a frame announces behind itself: what a `kXR_status` in it
declares, in an envelope or not. -/
def dataBehind (header : ResponseHeader) (body : Bytes) : Int :=
  match Machine.content header body with
  | .ok (.response inner body) =>
      if inner.status = kXR_status then
        match parseStatus body with
        | .ok info => info.dlen
        | .error _ => 0
      else 0
  | _ => 0

structure ServerFrame where
  header : ResponseHeader
  body : Bytes
  data : Bytes
  streamid : header.streamid < 0x10000
  status : header.status < 0x10000
  dlen : header.dlen = body.length
  bounded : body.length < 256 ^ 4
  behind : (data.length : Int) = dataBehind header body

/-- What a cursor does at a boundary: it reads a header, it takes the frame. -/
inductive Cut
  | opened (header : ResponseHeader)
  | taken (header : ResponseHeader) (body : Bytes)
  deriving DecidableEq

namespace ServerFrame

def bytes (frame : ServerFrame) : Bytes := frame.header.bytes ++ (frame.body ++ frame.data)

def cuts (frame : ServerFrame) : List Cut :=
  [.opened frame.header, .taken frame.header frame.body]

end ServerFrame

def Turn.taken : Turn → List Cut
  | .frame header body _ => [.taken header body]
  | _ => []

def Framer.opened (framer : Framer) : List Cut :=
  if framer.needTrailer = 0 ∧ framer.header = none ∧ RESPONSE_HDRLEN ≤ framer.buffer.length then
    match decodeHeader (framer.buffer.take RESPONSE_HDRLEN) with
    | .ok header => [.opened header]
    | .error _ => []
  else []

def Framer.cuts (framer : Framer) : List Cut := framer.opened ++ framer.next.taken

/-- Where a link stands in a sequence of frames, of which these cuts are made and
these bytes are still to be received. -/
inductive Synced (frames : List ServerFrame) (later : Bytes) : List Cut → Framer → Prop
  | between {done rest : List ServerFrame} (framer : Framer) (split : frames = done ++ rest)
      (fresh : framer.header = none) (none : framer.needTrailer = 0)
      (bytes : framer.buffer ++ later = rest.flatMap ServerFrame.bytes) :
      Synced frames later (done.flatMap ServerFrame.cuts) framer
  | inside {done rest : List ServerFrame} {frame : ServerFrame} (framer : Framer)
      (split : frames = done ++ frame :: rest) (opened : framer.header = some frame.header)
      (none : framer.needTrailer = 0)
      (bytes : framer.buffer ++ later =
        frame.body ++ (frame.data ++ rest.flatMap ServerFrame.bytes)) :
      Synced frames later (done.flatMap ServerFrame.cuts ++ [.opened frame.header]) framer
  | behind {done rest : List ServerFrame} {frame : ServerFrame} (framer : Framer)
      (split : frames = done ++ frame :: rest) (fresh : framer.header = none)
      (due : framer.needTrailer = frame.data.length) (some : frame.data ≠ [])
      (bytes : framer.buffer ++ later = frame.data ++ rest.flatMap ServerFrame.bytes) :
      Synced frames later (done.flatMap ServerFrame.cuts ++ frame.cuts) framer

theorem Synced.cuts {frames : List ServerFrame} {later : Bytes} {made : List Cut} {framer : Framer}
    (synced : Synced frames later made framer) : made <+: frames.flatMap ServerFrame.cuts := by
  cases synced with
  | between framer split =>
      rw [split, List.flatMap_append]
      exact List.prefix_append _ _
  | inside framer split =>
      rw [split, List.flatMap_append, List.flatMap_cons]
      exact (List.prefix_append_right_inj _).mpr (List.prefix_append [_] _)
  | behind framer split =>
      rw [split, List.flatMap_append, List.flatMap_cons]
      exact (List.prefix_append_right_inj _).mpr (List.prefix_append _ _)

theorem Synced.feed {frames : List ServerFrame} {later data : Bytes} {made : List Cut}
    {framer : Framer} (synced : Synced frames (data ++ later) made framer) :
    Synced frames later made { framer with buffer := framer.buffer ++ data } := by
  cases synced with
  | between framer split fresh none bytes =>
      exact .between _ split fresh none (by rw [← bytes, List.append_assoc])
  | inside framer split opened none bytes =>
      exact .inside _ split opened none (by rw [← bytes, List.append_assoc])
  | behind framer split fresh due some bytes =>
      exact .behind _ split fresh due some (by rw [← bytes, List.append_assoc])

theorem front_received {buffer later front rest : Bytes} (whole : buffer ++ later = front ++ rest)
    (received : front.length ≤ buffer.length) :
    buffer.take front.length = front ∧ buffer.drop front.length ++ later = rest := by
  constructor
  · rw [← List.take_append_of_le_length received, whole, List.take_left]
  · rw [← List.drop_append_of_le_length received, whole, List.drop_left]

namespace Machine

variable {Body : Type}

theorem delivered_plain {header : ResponseHeader} {body : Bytes} (none : dataBehind header body = 0)
    (framer : Framer) (machine : Machine Body) : delivered header body framer machine = framer := by
  unfold delivered dataBehind at *
  cases opened : content header body with
  | error error => rfl
  | ok carried =>
      cases carried with
      | notice info => rfl
      | response inner body =>
          simp only [opened] at none
          simp only [schedule]
          split_ifs with bringing held status
          · rfl
          · rw [if_pos status] at none
            cases parsed : parseStatus body with
            | error error => rfl
            | ok info =>
                rw [parsed] at none
                simp only [none, ne_eq, not_true_eq_false, if_false]
          · rfl
          · rfl

theorem delivered_data {header : ResponseHeader} {body : Bytes} {machine : Machine Body}
    (some : dataBehind header body ≠ 0) (running : machine.state.bringingUp = false)
    (held : ∀ inner body', content header body = .ok (.response inner body') →
      machine.pending.contains inner.streamid = true) (framer : Framer) :
    ∃ sid, delivered header body framer machine =
      { framer with needTrailer := dataBehind header body, trailerFor := sid } := by
  unfold delivered dataBehind at *
  cases opened : content header body with
  | error error => simp [opened] at some
  | ok carried =>
      cases carried with
      | notice info => simp [opened] at some
      | response inner body =>
          have present := held inner body opened
          simp only [opened] at some ⊢
          simp only [running, present, schedule, if_true, Bool.false_eq_true, if_false]
          split_ifs with status
          · rw [if_pos status] at some
            cases parsed : parseStatus body with
            | error error => simp [parsed] at some
            | ok info =>
                rw [parsed] at some
                exact ⟨_, if_pos some⟩
          · rw [if_neg status] at some
            exact absurd rfl some

/-- A turn on a link that takes a frame with data behind it takes one for a
stream in flight. -/
def tracked (pathid : Nat) (entry : Entry Move (Machine Body)) : Bool :=
  match entry.label with
  | .turn link =>
      link ≠ pathid ||
        match (entry.before.framer pathid).next with
        | .frame header body _ =>
            dataBehind header body = 0 ||
              match content header body with
              | .ok (.response inner _) => entry.before.pending.contains inner.streamid
              | _ => true
        | _ => true
  | _ => true

section Sync

variable {machine : Machine Body} {frames done rest : List ServerFrame} {frame : ServerFrame}
  {later : Bytes}

theorem take_body_synced (running : machine.state.bringingUp = false) {framer current : Framer}
    (split : frames = done ++ frame :: rest) (opened : framer.header = some frame.header)
    (none : framer.needTrailer = 0)
    (bytes : framer.buffer ++ later =
      frame.body ++ (frame.data ++ rest.flatMap ServerFrame.bytes))
    (held : ∀ header body left, framer.takeBody frame.header = .frame header body left →
      dataBehind header body ≠ 0 → ∀ inner body', content header body = .ok (.response inner body') →
        machine.pending.contains inner.streamid = true) :
    Synced frames later (done.flatMap ServerFrame.cuts ++ [.opened frame.header] ++
      (framer.takeBody frame.header).taken)
      (cursorAfter machine current (framer.takeBody frame.header)) := by
  by_cases short : framer.buffer.length < frame.header.dlen
  · have waits : framer.takeBody frame.header = .waits framer := if_pos short
    rw [waits, show (Turn.waits framer).taken = [] from rfl, List.append_nil]
    exact .inside framer split opened none bytes
  · have received : frame.body.length ≤ framer.buffer.length := by
      rw [← frame.dlen]
      exact Nat.le_of_not_lt short
    obtain ⟨body, behind⟩ := front_received bytes received
    have takes : framer.takeBody frame.header = .frame frame.header frame.body
        { framer with buffer := framer.buffer.drop frame.body.length, header := Option.none } := by
      rw [Framer.takeBody, if_neg short, frame.dlen, body]
    have held := held _ _ _ takes
    rw [takes, Turn.taken, List.append_assoc]
    simp only [cursorAfter]
    by_cases empty : frame.data = []
    · have plain : dataBehind frame.header frame.body = 0 := by
        rw [← frame.behind, empty]
        rfl
      have whole : frames = (done ++ [frame]) ++ rest := by
        rw [split, List.append_assoc]
        rfl
      have made : done.flatMap ServerFrame.cuts ++
          ([.opened frame.header] ++ [.taken frame.header frame.body]) =
          (done ++ [frame]).flatMap ServerFrame.cuts := by
        rw [List.flatMap_append]
        simp [ServerFrame.cuts]
      rw [delivered_plain plain, made]
      exact .between _ whole rfl none (by rw [behind, empty, List.nil_append])
    · have data : dataBehind frame.header frame.body ≠ 0 := by
        rw [← frame.behind]
        simpa using empty
      obtain ⟨sid, scheduled⟩ := delivered_data data running (held data)
        { framer with buffer := framer.buffer.drop frame.body.length, header := Option.none }
      rw [scheduled]
      exact .behind _ split rfl frame.behind.symm empty behind

/-- A link between two frames, with a whole header received: the header is the
next frame's, or it is refused for its length. -/
theorem header_received {framer : Framer} (fresh : framer.header = none)
    (none : framer.needTrailer = 0) (received : RESPONSE_HDRLEN ≤ framer.buffer.length)
    (bytes : framer.buffer ++ later = (frame :: rest).flatMap ServerFrame.bytes) :
    (framer.opened = [] ∧ ∃ error, framer.next = .raises error) ∨
    (framer.opened = [.opened frame.header] ∧
      framer.next = ({ framer with
        header := some frame.header
        buffer := framer.buffer.drop RESPONSE_HDRLEN } : Framer).takeBody frame.header ∧
      framer.buffer.drop RESPONSE_HDRLEN ++ later =
        frame.body ++ (frame.data ++ rest.flatMap ServerFrame.bytes)) := by
  have front : framer.buffer ++ later = frame.header.bytes ++
      (frame.body ++ (frame.data ++ rest.flatMap ServerFrame.bytes)) := by
    rw [bytes, List.flatMap_cons, ServerFrame.bytes, List.append_assoc, List.append_assoc]
  have eight : frame.header.bytes.length = RESPONSE_HDRLEN := response_header_length frame.header
  obtain ⟨head, behind⟩ := front_received front (by rw [eight]; exact received)
  rw [eight] at head behind
  have long : ¬framer.buffer.length < RESPONSE_HDRLEN := Nat.not_lt.mpr received
  by_cases fits : frame.header.dlen ≤ MAX_RESPONSE_BODY
  · have decoded := decode_header_bytes frame.header frame.streamid frame.status fits
    refine .inr ⟨?_, ?_, behind⟩
    · simp [Framer.opened, none, fresh, received, head, decoded]
    · simp [Framer.next, none, fresh, long, head, decoded]
  · obtain ⟨error, refused⟩ := decode_header_refused frame.header
      (by rw [frame.dlen]; exact frame.bounded) (Nat.lt_of_not_le fits)
    refine .inl ⟨?_, error, ?_⟩
    · simp [Framer.opened, none, fresh, received, head, refused]
    · simp [Framer.next, none, fresh, long, head, refused]

theorem turn_synced {made : List Cut} {framer : Framer}
    (running : machine.state.bringingUp = false) (synced : Synced frames later made framer)
    (held : ∀ header body left, framer.next = .frame header body left →
      dataBehind header body ≠ 0 → ∀ inner body', content header body = .ok (.response inner body') →
        machine.pending.contains inner.streamid = true) :
    Synced frames later (made ++ framer.cuts) (cursorAfter machine framer framer.next) := by
  cases synced with
  | @between done rest framer split fresh none bytes =>
      by_cases received : RESPONSE_HDRLEN ≤ framer.buffer.length
      · cases rest with
        | nil =>
            have empty : framer.buffer = [] := (List.append_eq_nil_iff.mp bytes).1
            rw [empty] at received
            cases received
        | cons frame rest =>
            rcases header_received fresh none received bytes with
              ⟨unread, error, raises⟩ | ⟨opened, next, behind⟩
            · rw [Framer.cuts, unread, raises]
              rw [show ([] : List Cut) ++ (Turn.raises error).taken = [] from rfl, List.append_nil]
              exact .between framer split fresh none bytes
            · rw [Framer.cuts, opened, ← List.append_assoc, next]
              exact take_body_synced running split rfl none behind fun header body left takes =>
                held header body left (next.trans takes)
      · have waits : framer.next = .waits framer := by
          simp [Framer.next, none, fresh, Nat.lt_of_not_le received]
        have quiet : framer.cuts = [] := by
          simp [Framer.cuts, Framer.opened, received, waits, Turn.taken]
        rw [quiet, List.append_nil, waits]
        exact .between framer split fresh none bytes
  | @inside done rest frame framer split opened none bytes =>
      have next : framer.next = framer.takeBody frame.header := by
        simp [Framer.next, none, opened]
      have unread : framer.opened = [] := by simp [Framer.opened, opened]
      rw [Framer.cuts, unread, List.nil_append, next]
      exact take_body_synced running split opened none bytes fun header body left takes =>
        held header body left (next.trans takes)
  | @behind done rest frame framer split fresh due some bytes =>
      have nonzero : framer.needTrailer ≠ 0 := by
        rw [due]
        simpa using some
      have unread : framer.opened = [] := by simp [Framer.opened, nonzero]
      by_cases short : framer.buffer.length < frame.data.length
      · have waits : framer.next = .waits framer := by
          rw [Framer.next, if_pos nonzero, if_pos (by rw [due]; exact_mod_cast short)]
        have quiet : framer.cuts = [] := by simp [Framer.cuts, unread, waits, Turn.taken]
        rw [quiet, List.append_nil, waits]
        exact .behind framer split fresh due some bytes
      · have received := Nat.le_of_not_lt short
        obtain ⟨data, rest_⟩ := front_received bytes received
        have takes : framer.next = .trailer framer.trailerFor frame.data { framer with
            buffer := framer.buffer.drop frame.data.length, needTrailer := 0
            trailerFor := none } := by
          rw [Framer.next, if_pos nonzero, if_neg (by rw [due]; exact_mod_cast short), due]
          simp [sliceTo, sliceFrom, data]
        have whole : frames = (done ++ [frame]) ++ rest := by
          rw [split, List.append_assoc]
          rfl
        have quiet : framer.cuts = [] := by simp [Framer.cuts, unread, takes, Turn.taken]
        have made : done.flatMap ServerFrame.cuts ++ frame.cuts =
            (done ++ [frame]).flatMap ServerFrame.cuts := by
          rw [List.flatMap_append]
          simp
        rw [quiet, List.append_nil, takes, made]
        exact .between _ whole fresh rfl rest_

end Sync

def cutsOn (pathid : Nat) (entry : Entry Move (Machine Body)) : List Cut :=
  match entry.label with
  | .turn link => if link = pathid then (entry.before.framer pathid).cuts else []
  | _ => []

def Move.receives (pathid : Nat) : Move → Bytes
  | .feed data link => if link = pathid then data else []
  | _ => []

def Call.receives (pathid : Nat) : Call → Bytes
  | .receiveData data link => if link = pathid then data else []
  | _ => []

def Call.drops (pathid : Nat) : Call → Bool
  | .receiveData data link => data = [] && link = pathid
  | .forgetPath link => link = pathid
  | _ => false

def Move.drops (pathid : Nat) : Move → Bool
  | .eof link | .forgetPath link => link = pathid
  | _ => false

section Runs

variable [Exchange Body] (installation : Installation Body)

theorem step_synced {frames : List ServerFrame} {later : Bytes} {made : List Cut} (pathid : Nat)
    (move : Move) (machine : Machine Body) (done : machine.state.established = true)
    (kept : Move.drops pathid move = false)
    (held : tracked pathid ⟨machine, move, step installation move machine⟩ = true)
    (synced : Synced frames (Move.receives pathid move ++ later) made (machine.framer pathid)) :
    Synced frames later (made ++ cutsOn pathid ⟨machine, move, step installation move machine⟩)
      ((step installation move machine).framer pathid) := by
  have other : Move.touches pathid move = false → Move.receives pathid move = [] →
      cutsOn pathid ⟨machine, move, step installation move machine⟩ = [] →
      Synced frames later (made ++ cutsOn pathid ⟨machine, move, step installation move machine⟩)
        ((step installation move machine).framer pathid) := by
    intro elsewhere silent quiet
    rw [quiet, List.append_nil, (step_move installation move machine).cursor_other elsewhere]
    rw [silent] at synced
    exact synced
  cases move with
  | feed data link =>
      by_cases same : link = pathid
      · subst same
        rw [Move.receives, if_pos rfl] at synced
        rw [show cutsOn link ⟨machine, .feed data link, _⟩ = [] from rfl, List.append_nil]
        simp only [step, feed_cursor]
        exact synced.feed
      · exact other (by simp [Move.touches, Ne.symm same]) (by simp [Move.receives, same]) rfl
  | turn link =>
      by_cases same : link = pathid
      · subst same
        simp only [cutsOn, if_true, step, turn_cursor]
        refine turn_synced (State.established_running done).1 synced ?_
        intro header body left takes data inner body' opened
        simpa [tracked, takes, data, opened] using held
      · exact other (by simp [Move.touches, Ne.symm same]) rfl (by simp [cutsOn, same])
  | eof link =>
      have different : pathid ≠ link := by
        intro same
        simp [Move.drops, same] at kept
      exact other (by simp [Move.touches, different]) rfl rfl
  | forgetPath link =>
      have different : pathid ≠ link := by
        intro same
        simp [Move.drops, same] at kept
      exact other (by simp [Move.touches, different]) rfl rfl
  | start | submit | resume | release | close | tlsEstablished | dataToSend | pathDataToSend
    | nextEvent => exact other rfl rfl rfl

theorem run_synced {frames : List ServerFrame} {later : Bytes} (pathid : Nat) (moves : List Move)
    (made : List Cut) (machine : Machine Body) (done : machine.state.established = true)
    (kept : ∀ move ∈ moves, Move.drops pathid move = false)
    (held : ∀ entry ∈ history (step installation) moves machine, tracked pathid entry = true)
    (synced : Synced frames (moves.flatMap (Move.receives pathid) ++ later) made
      (machine.framer pathid)) :
    Synced frames later (made ++ log (step installation) (cutsOn pathid) moves machine)
      ((run (step installation) moves machine).framer pathid) := by
  induction moves generalizing made machine with
  | nil => simpa [log, history, run] using synced
  | cons move rest induction =>
      rw [List.flatMap_cons, List.append_assoc] at synced
      have first := step_synced installation pathid move machine done (kept move (by simp))
        (held _ (by simp [history])) synced
      have later := induction _ (step installation move machine)
        ((step_move installation move machine).established done)
        (fun other member => kept other (by simp [member]))
        (fun entry member => held entry (by simp [history, member])) first
      simpa [log, history, run] using later

theorem moves_received (pathid : Nat) (call : Call) (machine : Machine Body) :
    (moves installation call machine).flatMap (Move.receives pathid) = Call.receives pathid call ∧
      (Call.drops pathid call = false →
        ∀ move ∈ moves installation call machine, Move.drops pathid move = false) := by
  cases call with
  | receiveData data link =>
      by_cases none : data = []
      · refine ⟨?_, fun kept => ?_⟩
        · simp [moves, none, Move.receives, Call.receives]
        · simpa [moves, none, Call.drops, Move.drops] using kept
      · refine ⟨?_, fun _ move member => ?_⟩
        · simp only [moves, if_neg none, List.flatMap_cons]
          rw [List.flatMap_eq_nil_iff.mpr, List.append_nil]
          · rfl
          · intro move member
            rw [List.eq_of_mem_replicate member]
            rfl
        · simp only [moves, if_neg none] at member
          rcases List.mem_cons.mp member with rfl | turned
          · rfl
          · rw [List.eq_of_mem_replicate turned]
            rfl
  | forgetPath link =>
      refine ⟨rfl, fun kept => ?_⟩
      simpa [moves, Call.drops, Move.drops] using kept
  | start | submit | resume | release | close | tlsEstablished | dataToSend | pathDataToSend
    | nextEvent =>
      refine ⟨rfl, fun _ => ?_⟩
      simp [moves, Move.drops]

theorem moves_of_received (pathid : Nat) (calls : List Call) (machine : Machine Body)
    (kept : ∀ call ∈ calls, Call.drops pathid call = false) :
    (movesOf installation calls machine).flatMap (Move.receives pathid) =
      calls.flatMap (Call.receives pathid) ∧
      ∀ move ∈ movesOf installation calls machine, Move.drops pathid move = false := by
  induction calls generalizing machine with
  | nil => simp [movesOf]
  | cons call rest induction =>
      obtain ⟨first, whole⟩ := moves_received installation pathid call machine
      obtain ⟨later, every⟩ := induction (perform installation call machine)
        fun other member => kept other (by simp [member])
      refine ⟨by rw [movesOf, List.flatMap_append, first, later, List.flatMap_cons], ?_⟩
      intro move member
      rw [movesOf, List.mem_append] at member
      rcases member with here | there
      · exact whole (kept call (by simp)) move here
      · exact every move there

/-- In every run of every machine that is up, on every link whose cursor stands
at a boundary and that the run does not drop: if what is received on the link is
what a server sends of some sequence of frames, and each frame with data behind
it is for a stream in flight when it is taken, then the cursor cuts where the
server did, and every header it reads is the header of a frame that was sent. -/
theorem boundaries_kept (calls : List Call) (machine : Machine Body)
    (ready : machine.state = .READY) (pathid : Nat) (fresh : machine.framer pathid = {})
    (kept : ∀ call ∈ calls, Call.drops pathid call = false) (frames : List ServerFrame)
    (sent : calls.flatMap (Call.receives pathid) <+: frames.flatMap ServerFrame.bytes)
    (held : ∀ entry ∈ traced installation calls machine, tracked pathid entry = true) :
    let made := (traced installation calls machine).flatMap (cutsOn pathid)
    made <+: frames.flatMap ServerFrame.cuts ∧
      ∀ header, .opened header ∈ made → ∃ frame ∈ frames, frame.header = header := by
  intro made
  obtain ⟨later, whole⟩ := sent
  obtain ⟨received, every⟩ := moves_of_received installation pathid calls machine kept
  have synced : Synced frames
      ((movesOf installation calls machine).flatMap (Move.receives pathid) ++ later) []
      (machine.framer pathid) := by
    rw [received, whole, fresh]
    exact .between {} (List.nil_append _).symm rfl rfl rfl
  have cut := (run_synced installation pathid _ [] machine (by rw [ready]; rfl) every held
    synced).cuts
  refine ⟨cut, fun header member => ?_⟩
  obtain ⟨frame, inside, listed⟩ := List.mem_flatMap.mp (cut.subset member)
  refine ⟨frame, inside, ?_⟩
  simp only [ServerFrame.cuts, List.mem_cons, List.not_mem_nil, or_false, Cut.opened.injEq,
    reduceCtorEq] at listed
  exact listed.symm

end Runs

/-- The last answer to a paged read, with eight bytes of data that read like a
header. -/
def pagedAnswer : ServerFrame where
  header := ⟨firstSid, kXR_status, 16⟩
  body := paged firstSid kXR_FinalResult 8
  data := ResponseHeader.bytes ⟨5, kXR_ok, 0⟩
  streamid := by decide
  status := by decide
  dlen := by decide
  bounded := by decide
  behind := by decide +kernel

/-- A read that was given up: its answer comes, and the data behind it is taken
for a frame. -/
theorem late_answer_desyncs :
    let request := Request.PgRead [] 0 8 false 0
    let calls : List Call := [.submit request [] false, .release firstSid,
      .receiveData pagedAnswer.bytes 0]
    plainMachine.state = .READY ∧ plainMachine.framer 0 = {} ∧
      calls.flatMap (Call.receives 0) = [pagedAnswer].flatMap ServerFrame.bytes ∧
      .opened ⟨5, kXR_ok, 0⟩ ∈
        (traced (Installation.bare OneShot) calls plainMachine).flatMap (cutsOn 0) ∧
      ∀ frame ∈ [pagedAnswer], frame.header ≠ ⟨5, kXR_ok, 0⟩ := by
  refine ⟨by decide +kernel, by decide +kernel, by decide +kernel, by decide +kernel, ?_⟩
  intro frame member
  rw [List.mem_singleton.mp member]
  decide

theorem timely_answer_syncs :
    let request := Request.PgRead [] 0 8 false 0
    let calls : List Call := [.submit request [] false, .receiveData (pagedAnswer.bytes.take 11) 0,
      .receiveData (pagedAnswer.bytes.drop 11) 0]
    let made := (traced (Installation.bare OneShot) calls plainMachine).flatMap (cutsOn 0)
    made = pagedAnswer.cuts ∧ made <+: [pagedAnswer].flatMap ServerFrame.cuts := by
  intro request calls made
  have held : (traced (Installation.bare OneShot) calls plainMachine).all (tracked 0) = true := by
    decide +kernel
  refine ⟨by decide +kernel, ?_⟩
  refine (boundaries_kept (Installation.bare OneShot) calls plainMachine (by decide +kernel) 0
    (by decide +kernel) ?_ [pagedAnswer] ?_ (List.all_eq_true.mp held)).1
  · have kept : calls.all (fun call => !Call.drops 0 call) = true := by decide +kernel
    intro call member
    simpa using List.all_eq_true.mp kept call member
  · have whole : calls.flatMap (Call.receives 0) = [pagedAnswer].flatMap ServerFrame.bytes := by
      decide +kernel
    exact whole ▸ List.prefix_refl _

end Machine

end XRootDClient.Proto

import Mathlib.Data.List.Induction
import XRootDClient.Proto.World
import XRootDClient.Session.Listening

/-!
# The pieces of an answer

The frames of one answer against what the machine tells of them. It hands on the body of
every piece as it comes, and collects it for the last one; a `kXR_wait` starts the answer
over at the server, but takes nothing out of what was collected.
-/

set_option autoImplicit false

namespace XRootDClient.Sync

open Lib Lib.BigEndian Lib.Stateful Auth Proto

variable {Body : Type}

def asksToWait (frame : ServerFrame) : Bool :=
  match Machine.content frame.header frame.body with
  | .ok (.response inner _) => inner.status = kXR_wait
  | _ => false

/-- A frame of an answer that is not its last: a piece, partial data, or a wait. -/
def Piece (sid : Nat) (frame : ServerFrame) : Prop :=
  ∃ inner body, Machine.content frame.header frame.body = .ok (.response inner body) ∧
    inner.streamid = sid ∧ (inner.status = kXR_oksofar ∨ inner.status = kXR_wait ∨
      inner.status = kXR_waitresp ∨
      inner.status = kXR_status ∧ ∃ info, parseStatus body = .ok info ∧ info.isFinal = false)

def Last (sid : Nat) (frame : ServerFrame) : Prop :=
  ∃ inner body, Machine.content frame.header frame.body = .ok (.response inner body) ∧
    inner.streamid = sid ∧ (inner.status = kXR_ok ∨
      inner.status = kXR_status ∧ ∃ info, parseStatus body = .ok info ∧ info.isFinal = true)

/-- The frames of an answer: its pieces, and the last. -/
inductive Answer (sid : Nat) : List ServerFrame → Prop
  | last {frame : ServerFrame} (ends : Last sid frame) : Answer sid [frame]
  | piece {frame : ServerFrame} {frames : List ServerFrame} (goes : Piece sid frame)
      (rest : Answer sid frames) : Answer sid (frame :: frames)

theorem Last.not_piece {sid : Nat} {frame : ServerFrame} (ends : Last sid frame) :
    ¬Piece sid frame := by
  rintro ⟨inner, body, opened, -, goes⟩
  obtain ⟨other, same, reopened, -, finished⟩ := ends
  rw [opened] at reopened
  cases reopened
  rcases goes with status | status | status | ⟨status, info, parsed, partial_⟩
  · rw [status] at finished
    rcases finished with finished | finished
    · cases finished
    · cases finished.1
  · rw [status] at finished
    rcases finished with finished | finished
    · cases finished
    · cases finished.1
  · rw [status] at finished
    rcases finished with finished | finished
    · cases finished
    · cases finished.1
  · rcases finished with finished | ⟨-, info', again, final⟩
    · rw [status] at finished
      cases finished
    · rw [parsed] at again
      cases again
      rw [partial_] at final
      cases final

theorem Answer.ends {sid : Nat} {early later : List ServerFrame} {frame : ServerFrame}
    (answer : Answer sid (early ++ frame :: later)) (ends : Last sid frame) : later = [] := by
  induction early with
  | nil =>
      cases answer with
      | last => rfl
      | piece goes => exact absurd goes ends.not_piece
  | cons first early induction =>
      generalize whole : first :: early ++ frame :: later = frames at answer
      cases answer with
      | last => simp at whole
      | piece goes rest =>
          rw [List.cons_append, List.cons.injEq] at whole
          rw [← whole.2] at rest
          exact induction rest

theorem Answer.whole {sid : Nat} {frames done early later rest : List ServerFrame}
    {frame : ServerFrame} (answer : Answer sid frames)
    (split : frames = done ++ (early ++ frame :: later) ++ rest) (ends : Last sid frame) :
    frames = done ++ early ++ [frame] := by
  have again : frames = (done ++ early) ++ frame :: (later ++ rest) := by
    rw [split]
    simp
  rw [again] at answer
  rw [again, answer.ends ends]

def parted (frames : List ServerFrame) : List ServerFrame × List ServerFrame :=
  frames.foldl (fun parts frame =>
    if asksToWait frame then (parts.1 ++ parts.2 ++ [frame], []) else (parts.1, parts.2 ++ [frame]))
    ([], [])

def abandoned (frames : List ServerFrame) : Bytes := (parted frames).1.flatMap ServerFrame.payload

def current (frames : List ServerFrame) : Bytes := (parted frames).2.flatMap ServerFrame.payload

theorem parted_concat (frames : List ServerFrame) (frame : ServerFrame) :
    parted (frames ++ [frame]) = if asksToWait frame
      then ((parted frames).1 ++ (parted frames).2 ++ [frame], [])
      else ((parted frames).1, (parted frames).2 ++ [frame]) := by
  simp only [parted, List.foldl_append, List.foldl_cons, List.foldl_nil]

theorem parted_whole (frames : List ServerFrame) :
    (parted frames).1 ++ (parted frames).2 = frames := by
  induction frames using List.reverseRecOn with
  | nil => rfl
  | append_singleton frames frame induction =>
      rw [parted_concat]
      split_ifs
      · dsimp only
        rw [List.append_nil, induction]
      · dsimp only
        rw [← List.append_assoc, induction]

theorem abandoned_current (frames : List ServerFrame) :
    abandoned frames ++ current frames = frames.flatMap ServerFrame.payload := by
  rw [abandoned, current, ← List.flatMap_append, parted_whole]

theorem current_wait (frames : List ServerFrame) {frame : ServerFrame}
    (waits : asksToWait frame = true) : current (frames ++ [frame]) = [] := by
  rw [current, parted_concat, if_pos waits]
  rfl

theorem current_piece (frames : List ServerFrame) {frame : ServerFrame}
    (goes : asksToWait frame = false) :
    current (frames ++ [frame]) = current frames ++ frame.payload := by
  rw [current, parted_concat, if_neg (by rw [goes]; exact Bool.false_ne_true)]
  simp [current]

/-- What the machine reports of a frame, when it has collected so much. -/
inductive Tells (sid : Nat) (buffer : Bytes) (frame : ServerFrame) : Event → Prop
  | chunk (request : Request) (goes : asksToWait frame = false) :
      Tells sid buffer frame (.chunk sid request frame.payload)
  | wait (request : Request) (seconds : ℚ) (message : Text) (waits : asksToWait frame = true) :
      Tells sid buffer frame (.waiting sid request seconds message true)
  | later (request : Request) (seconds : ℚ) (goes : asksToWait frame = false)
      (none : frame.payload = []) : Tells sid buffer frame (.waiting sid request seconds [] false)
  | last (request : Request) (status : Option StatusInfo) (goes : asksToWait frame = false)
      (ends : Last sid frame) :
      Tells sid buffer frame (.completed sid request (buffer ++ frame.payload) status)

/-- What the machine reports of frames, one after the other. -/
inductive TellsAll (sid : Nat) : Bytes → List ServerFrame → List Event → Prop
  | nil (buffer : Bytes) : TellsAll sid buffer [] []
  | cons {buffer : Bytes} {frame : ServerFrame} {event : Event} {frames : List ServerFrame}
      {events : List Event} (first : Tells sid buffer frame event)
      (rest : TellsAll sid (buffer ++ frame.payload) frames events) :
      TellsAll sid buffer (frame :: frames) (event :: events)

theorem Tells.stream {sid : Nat} {buffer : Bytes} {frame : ServerFrame} {event : Event}
    (tells : Tells sid buffer frame event) :
    event.stream = some sid ∧ event.losesPath = false := by
  cases tells <;> exact ⟨rfl, rfl⟩

theorem TellsAll.stream {sid : Nat} {buffer : Bytes} {frames : List ServerFrame}
    {events : List Event} (tells : TellsAll sid buffer frames events) :
    ∀ event ∈ events, event.stream = some sid ∧ event.losesPath = false := by
  induction tells with
  | nil => simp
  | cons first rest induction => exact List.forall_mem_cons.mpr ⟨first.stream, induction⟩

/-- The data behind a `kXR_status` is still to be collected. -/
def Collects (frame : ServerFrame) (pending : Pending) : Prop :=
  ∃ inner body info, Machine.content frame.header frame.body = .ok (.response inner body) ∧
    inner.status = kXR_status ∧ parseStatus body = .ok info ∧ pending.status = some info

/-- The stream is known and so much of its answer has been collected, unless this was the
last of its frames. -/
def Holds (sid : Nat) (frame : ServerFrame) (buffer : Bytes) (machine : Machine Body) : Prop :=
  Last sid frame ∨ ∃ pending, machine.pending.get? sid = some pending ∧ pending.buffer = buffer

theorem asks_response {frame : ServerFrame} {inner : ResponseHeader} {body : Bytes}
    (opened : Machine.content frame.header frame.body = .ok (.response inner body)) :
    asksToWait frame = decide (inner.status = kXR_wait) := by
  rw [asksToWait, opened]

theorem status_payload {frame : ServerFrame} {inner : ResponseHeader} {body : Bytes}
    (opened : Machine.content frame.header frame.body = .ok (.response inner body))
    (status : inner.status = kXR_status) : frame.payload = frame.data := by
  rw [ServerFrame.payload_response opened, status]
  rfl

theorem on_status_data_tells {sid : Nat} {frame : ServerFrame} {inner : ResponseHeader}
    {body : Bytes} {info : StatusInfo} {pending : Pending} {machine : Machine Body}
    (opened : Machine.content frame.header frame.body = .ok (.response inner body))
    (mine : inner.streamid = sid) (status : inner.status = kXR_status)
    (parsed : parseStatus body = .ok info) (found : machine.pending.get? sid = some pending)
    (noted : pending.status = some info) :
    ∃ event, Tells sid pending.buffer frame event ∧
      (Machine.onStatusData sid frame.data machine).events = machine.events ++ [event] ∧
      Holds sid frame (pending.buffer ++ frame.payload)
        (Machine.onStatusData sid frame.data machine) := by
  have goes : asksToWait frame = false := by
    rw [asks_response opened, status]
    rfl
  rw [← status_payload opened status]
  unfold Machine.onStatusData
  rw [found]
  dsimp only
  rw [noted]
  dsimp only
  split_ifs with final
  · have ends : Last sid frame := ⟨inner, body, opened, mine, Or.inr ⟨status, info, parsed, final⟩⟩
    refine ⟨_, Tells.last pending.request (some info) goes ends, ?_, Or.inl ends⟩
    rw [Machine.release_frame]
    rfl
  · exact ⟨_, Tells.chunk pending.request goes, rfl, Or.inr ⟨_, Dict.get_set_self _ _ _, rfl⟩⟩

/-- What a response of the answer does: it is told, or its data is waited for. -/
inductive Responds (sid : Nat) (frame : ServerFrame) (pending : Pending) (framer : Framer)
    (before : Machine Body) : Framer → Machine Body → Prop
  | tells {after : Machine Body} (event : Event) (tells : Tells sid pending.buffer frame event)
      (queued : after.events = before.events ++ [event]) (whole : frame.data = [])
      (holds : Holds sid frame (pending.buffer ++ frame.payload) after) :
      Responds sid frame pending framer before framer after
  | collects {after : Machine Body} {held : Pending} (queued : after.events = before.events)
      (found : after.pending.get? sid = some held) (same : held.buffer = pending.buffer)
      (behind : frame.data ≠ []) (collects : Collects frame held) :
      Responds sid frame pending framer before
        { framer with needTrailer := frame.data.length, trailerFor := some sid } after

theorem data_less {frame : ServerFrame} {inner : ResponseHeader} {body : Bytes}
    (opened : Machine.content frame.header frame.body = .ok (.response inner body))
    (other : inner.status ≠ kXR_status) : frame.data = [] :=
  ServerFrame.data_none opened fun status => absurd status other

theorem on_response_responds {sid : Nat} {frame : ServerFrame} {inner : ResponseHeader}
    {body : Bytes} {pending : Pending} {framer left : Framer} {machine after : Machine Body}
    (opened : Machine.content frame.header frame.body = .ok (.response inner body))
    (mine : inner.streamid = sid) (known : Piece sid frame ∨ Last sid frame)
    (found : machine.pending.get? sid = some pending)
    (done : Machine.onResponse inner body pending framer machine = .ok left after) :
    Responds sid frame pending framer machine left after := by
  have statuses : inner.status = kXR_ok ∧ Last sid frame ∨ inner.status = kXR_oksofar ∨
      inner.status = kXR_wait ∨ inner.status = kXR_waitresp ∨ inner.status = kXR_status := by
    rcases known with ⟨other, same, again, -, cases_⟩ | ends
    · rw [opened] at again
      cases again
      tauto
    · obtain ⟨other, same, again, -, cases_⟩ := id ends
      rw [opened] at again
      cases again
      tauto
  have asks := asks_response opened
  have carried := ServerFrame.payload_response opened
  subst mine
  unfold Machine.onResponse at done
  rcases statuses with ⟨status, ends⟩ | status | status | status | status
  · have whole := data_less opened (by rw [status]; decide)
    rw [status, if_pos rfl] at done
    cases done
    rw [status, if_pos (by decide), whole, List.append_nil] at carried
    subst carried
    refine .tells _ (Tells.last pending.request pending.status (by rw [asks, status]; rfl) ends) ?_
      whole (Or.inl ends)
    dsimp only
    rw [Machine.release_frame]
    rfl
  · have whole := data_less opened (by rw [status]; decide)
    rw [status, if_neg (by decide), if_pos rfl] at done
    cases done
    rw [status, if_pos (by decide), whole, List.append_nil] at carried
    subst carried
    exact .tells _ (Tells.chunk pending.request (by rw [asks, status]; rfl)) rfl whole
      (Or.inr ⟨_, Dict.get_set_self _ _ _, rfl⟩)
  · have whole := data_less opened (by rw [status]; decide)
    rw [status, if_neg (by decide), if_neg (by decide), if_neg (by decide), if_neg (by decide),
      if_pos rfl, run_bind] at done
    rw [status, if_neg (by decide), whole, List.append_nil] at carried
    cases parsed : parseWait body with
    | error error =>
        rw [parsed] at done
        cases done
    | ok told =>
        rw [parsed] at done
        cases done
        refine .tells _ (Tells.wait _ _ _ (by rw [asks, status]; rfl)) rfl whole
          (Or.inr ⟨pending, found, ?_⟩)
        rw [carried, List.append_nil]
  · have whole := data_less opened (by rw [status]; decide)
    rw [status, if_neg (by decide), if_neg (by decide), if_neg (by decide), if_neg (by decide),
      if_neg (by decide), if_pos rfl, run_bind] at done
    rw [status, if_neg (by decide), whole, List.append_nil] at carried
    cases parsed : parseWaitresp body with
    | error error =>
        rw [parsed] at done
        cases done
    | ok told =>
        rw [parsed] at done
        cases done
        refine .tells _ (Tells.later _ _ (by rw [asks, status]; rfl) carried) rfl whole
          (Or.inr ⟨pending, found, ?_⟩)
        rw [carried, List.append_nil]
  · rw [status, if_neg (by decide), if_neg (by decide), if_neg (by decide), if_neg (by decide),
      if_neg (by decide), if_neg (by decide), if_pos rfl, run_bind] at done
    cases parsed : parseStatus body with
    | error error =>
        rw [parsed] at done
        cases done
    | ok info =>
        have length := ServerFrame.data_length opened status parsed
        rw [parsed] at done
        simp only [Machine.attempt_ok, run_bind, run_modify] at done
        by_cases short : info.dlen = 0
        · have whole : frame.data = [] := List.length_eq_zero_iff.mp (by omega)
          rw [if_neg (not_not.mpr short)] at done
          cases done
          obtain ⟨event, tells, queued, holds⟩ := @on_status_data_tells Body inner.streamid frame
            inner body info { pending with status := some info } (Machine.updatePending
              inner.streamid { pending with status := some info } machine)
            opened rfl status parsed (Dict.get_set_self _ _ _) rfl
          rw [whole] at queued holds
          exact .tells event tells queued whole holds
        · rw [if_pos short] at done
          cases done
          rw [← length]
          refine .collects rfl (Dict.get_set_self _ _ _) rfl ?_
            ⟨inner, body, info, opened, status, parsed, rfl⟩
          intro none
          rw [none] at length
          exact short length.symm

/-- The frames that are still to be read off a link are the rest of the answer, and its
pieces so far have been collected. -/
structure Follows (sid link : Nat) (wire : Bytes) (rest : List Sent) (buffer : Bytes)
    (machine : Machine Body) : Prop where
  running : machine.state.bringingUp = false
  reads : Reads wire rest (machine.framer link)
  answer : rest = [] ∨ Answer sid (rest.map Sent.frame)
  held : ∀ sent later, rest = sent :: later → ∃ pending,
    machine.pending.get? sid = some pending ∧ pending.buffer = buffer ∧
      ((machine.framer link).needTrailer ≠ 0 →
        (machine.framer link).trailerFor = some sid ∧ Collects sent.frame pending)

theorem Follows.only {sid link : Nat} {wire : Bytes} {rest : List Sent} {buffer : Bytes}
    {before after : Machine Body} (follows : Follows sid link wire rest buffer before)
    (only : OutOnly before after) : Follows sid link wire rest buffer after := by
  have framer : after.framer link = before.framer link := by
    rw [Machine.framer, only.framers]
    rfl
  constructor
  · rw [only.state]
    exact follows.running
  · rw [framer]
    exact follows.reads
  · exact follows.answer
  · rw [framer, only.pending]
    exact follows.held

theorem Follows.silenced {sid link : Nat} {wire : Bytes} {rest : List Sent} {buffer : Bytes}
    {machine : Machine Body} (follows : Follows sid link wire rest buffer machine) :
    Follows sid link wire rest buffer { machine with events := [] } :=
  ⟨follows.running, follows.reads, follows.answer, follows.held⟩

inductive Advances (sid link : Nat) (wire : Bytes) (rest : List Sent) (buffer : Bytes)
    (before after : Machine Body) : Prop
  | quiet (queued : after.events = before.events)
      (follows : Follows sid link wire rest buffer after)
  | told (sent : Sent) (later : List Sent) (event : Event) (head : rest = sent :: later)
      (tells : Tells sid buffer sent.frame event)
      (queued : after.events = before.events ++ [event])
      (follows : Follows sid link wire later (buffer ++ sent.frame.payload) after)

theorem Answer.head {sid : Nat} {frame : ServerFrame} {frames : List ServerFrame}
    (answer : Answer sid (frame :: frames)) :
    (Piece sid frame ∨ Last sid frame) ∧ (frames = [] ∨ Answer sid frames) := by
  cases answer with
  | last ends => exact ⟨Or.inr ends, Or.inl rfl⟩
  | piece goes rest => exact ⟨Or.inl goes, Or.inr rest⟩

theorem Follows.told {sid link : Nat} {wire : Bytes} {sent : Sent} {later : List Sent}
    {buffer : Bytes} {machine : Machine Body} {framer : Framer}
    (answer : Answer sid ((sent :: later).map Sent.frame))
    (running : machine.state.bringingUp = false) (here : machine.framer link = framer)
    (fresh : framer.header = none) (idle : framer.needTrailer = 0)
    (bytes : framer.buffer ++ wire = later.flatMap Sent.bytes)
    (holds : Holds sid sent.frame buffer machine) :
    Follows sid link wire later buffer machine := by
  have rest := answer.head.2
  rw [List.map_eq_nil_iff] at rest
  refine ⟨running, ?_, rest, ?_⟩
  · rw [here]
    exact .between framer fresh idle bytes
  · intro next more head
    rcases holds with ends | ⟨pending, found, same⟩
    · have none := @Answer.ends sid [] _ _ answer ends
      rw [head] at none
      cases none
    · refine ⟨pending, found, same, fun due => ?_⟩
      rw [here] at due
      exact absurd idle due

section Reading

variable [Exchange Body] (installation : Installation Body)

theorem turn_advances {sid link : Nat} {wire : Bytes} {rest : List Sent} {buffer : Bytes}
    {machine after : Machine Body} {goes : Bool}
    (follows : Follows sid link wire rest buffer machine)
    (done : Machine.turn installation link machine = .ok goes after) :
    Advances sid link wire rest buffer machine after := by
  have running : after.state.bringingUp = false := by
    have only := (Machine.turn_move installation link machine).only follows.running
    rw [done] at only
    rw [show after.state = machine.state from only.state]
    exact follows.running
  have takes := follows.reads.next
  rw [Machine.turn_run] at done
  generalize (machine.framer link).next = found at takes done
  cases takes with
  | raises => cases done
  | @waits _ left reads due owner =>
      cases done
      refine .quiet rfl ⟨running, ?_, follows.answer, ?_⟩
      · rw [Machine.framer_store_self]
        exact reads
      · rw [Machine.framer_store_self, due, owner]
        exact follows.held
  | @trailer sent later left owner due held fresh idle bytes =>
      obtain ⟨pending, found, rfl, collects⟩ := follows.held sent later rfl
      obtain ⟨mine, inner, body, info, opened, status, parsed, noted⟩ := collects due
      have answer := follows.answer.resolve_left (List.cons_ne_nil _ _)
      have named : inner.streamid = sid := by
        rcases answer.head.1 with ⟨_, _, again, same, -⟩ | ⟨_, _, again, same, -⟩
        · rw [opened] at again
          cases again
          exact same
        · rw [opened] at again
          cases again
          exact same
      rw [← held, mine] at done
      cases done
      obtain ⟨event, tells, queued, holds⟩ := @on_status_data_tells Body sid sent.frame inner body
        info pending (Machine.storeFramer link left machine) opened named status parsed found noted
      refine .told sent later event rfl tells queued ?_
      apply Follows.told answer running _ fresh idle bytes holds
      rw [Machine.on_status_data_cursor, Machine.framer_store_self]
  | @frame sent later left fresh idle bytes =>
      obtain ⟨pending, found, rfl, -⟩ := follows.held sent later rfl
      have answer := follows.answer.resolve_left (List.cons_ne_nil _ _)
      have known := answer.head.1
      obtain ⟨inner, body, opened, named⟩ : ∃ inner body, Machine.content sent.frame.header
          sent.frame.body = .ok (.response inner body) ∧ inner.streamid = sid := by
        rcases known with ⟨inner, body, opened, named, -⟩ | ⟨inner, body, opened, named, -⟩
        · exact ⟨inner, body, opened, named⟩
        · exact ⟨inner, body, opened, named⟩
      have idling : ¬(Machine.storeFramer link left machine).state.bringingUp = true := by
        rw [Machine.storeFramer, follows.running]
        exact Bool.false_ne_true
      have stored : (Machine.storeFramer link left machine).pending.get? sid = some pending := found
      dsimp only at done
      rw [Machine.dispatch_run, opened] at done
      dsimp only at done
      rw [Machine.respond_run, if_neg idling, named, stored] at done
      dsimp only at done
      cases ran : Machine.onResponse inner body pending left
          (Machine.storeFramer link left machine) with
      | error error broken =>
          rw [ran] at done
          cases done
      | ok framer responded =>
          rw [ran] at done
          cases done
          have responds := on_response_responds opened named known stored ran
          cases responds with
          | tells event tells queued whole holds =>
              refine .told sent later event rfl tells queued ?_
              rw [whole, List.nil_append] at bytes
              exact Follows.told answer running (Machine.framer_store_self _ _ _) fresh idle bytes
                holds
          | collects queued found same behind collects =>
              refine .quiet queued ⟨running, ?_, follows.answer, ?_⟩
              · rw [Machine.framer_store_self]
                exact .behind _ fresh rfl behind bytes
              · intro sent' later' head
                cases head
                refine ⟨_, found, same, fun _ => ?_⟩
                rw [Machine.framer_store_self]
                exact ⟨rfl, collects⟩

theorem parse_tells {sid link : Nat} {wire : Bytes} (fuel : Nat) {rest : List Sent}
    {buffer : Bytes} {machine after : Machine Body}
    (follows : Follows sid link wire rest buffer machine)
    (done : Machine.parse installation link fuel machine = .ok () after) :
    ∃ early later events, rest = early ++ later ∧
      TellsAll sid buffer (early.map Sent.frame) events ∧
      after.events = machine.events ++ events ∧
      Follows sid link wire later (buffer ++ (early.map Sent.frame).flatMap ServerFrame.payload)
        after := by
  induction fuel generalizing rest buffer machine with
  | zero =>
      cases done
      exact ⟨[], rest, [], rfl, .nil buffer, by simp, by simpa using follows⟩
  | succ fuel induction =>
      rw [Machine.parse, run_bind] at done
      cases taken : Machine.turn installation link machine with
      | error error broken =>
          rw [taken] at done
          cases done
      | ok more middle =>
          have advances := turn_advances installation follows taken
          rw [taken] at done
          cases more with
          | false =>
              cases done
              cases advances with
              | quiet queued follows =>
                  exact ⟨[], rest, [], rfl, .nil buffer, by simpa using queued,
                    by simpa using follows⟩
              | told sent later event head tells queued follows =>
                  exact ⟨[sent], later, [event], head, .cons tells (.nil _), queued,
                    by simpa using follows⟩
          | true =>
              cases advances with
              | quiet queued follows =>
                  obtain ⟨early, later, events, split, tells, told, reached⟩ :=
                    induction follows done
                  exact ⟨early, later, events, split, tells, by rw [told, queued], reached⟩
              | told sent more event head tells queued follows =>
                  obtain ⟨early, later, events, split, others, told, reached⟩ :=
                    induction follows done
                  refine ⟨sent :: early, later, event :: events, ?_, .cons tells others, ?_, ?_⟩
                  · rw [head, split]
                    rfl
                  · rw [told, queued, List.append_assoc]
                    rfl
                  · simpa using reached

end Reading

end XRootDClient.Sync

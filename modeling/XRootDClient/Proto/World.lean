import XRootDClient.Proto.Wire

/-!
# A machine and its server

The machine, the bytes on their way to it on every link, and a ledger that
nobody on the wire can see: which submission each stream id stands for, how often
the server has received each request, and every frame it has sent in answer. A
server is lawful when each frame it sends is a piece of an answer it still owes,
under the request's stream id and on the link the protocol designates.
-/

set_option autoImplicit false

namespace XRootDClient.Proto

open Lib Lib.BigEndian Lib.Stateful Lib.Run Auth

/-- The link on which the answer to a request is due: the bound path if the whole
frame went down it or the request asks for that, the control link otherwise. -/
def answerLink (request : Request) (arriveOnPath : Bool) : Nat :=
  if arriveOnPath || request.replyOnPath then request.pathid else 0

/-- Whether a response is the last piece of an answer. `kXR_wait` is one: the
request has to be sent again to be answered. -/
def lastPiece (header : ResponseHeader) (body : Bytes) : Bool :=
  if header.status = kXR_oksofar ∨ header.status = kXR_waitresp then false
  else if header.status = kXR_status then
    match parseStatus body with
    | .ok info => info.isFinal
    | .error _ => false
  else true

namespace ServerFrame

def closes (frame : ServerFrame) : Bool :=
  match Machine.content frame.header frame.body with
  | .ok (.response inner body) => lastPiece inner body
  | _ => false

def payload (frame : ServerFrame) : Bytes :=
  match Machine.content frame.header frame.body with
  | .ok (.response inner body) =>
      (if inner.status = kXR_ok ∨ inner.status = kXR_oksofar then body else []) ++ frame.data
  | _ => []

variable {frame : ServerFrame} {inner : ResponseHeader} {body : Bytes}

theorem closes_response
    (opened : Machine.content frame.header frame.body = .ok (.response inner body)) :
    frame.closes = lastPiece inner body := by
  rw [closes, opened]

theorem payload_response
    (opened : Machine.content frame.header frame.body = .ok (.response inner body)) :
    frame.payload =
      (if inner.status = kXR_ok ∨ inner.status = kXR_oksofar then body else []) ++ frame.data := by
  rw [payload, opened]

theorem data_none (opened : Machine.content frame.header frame.body = .ok (.response inner body))
    (garbled : inner.status = kXR_status → ∃ error, parseStatus body = .error error) :
    frame.data = [] := by
  have behind := frame.behind
  rw [dataBehind, opened] at behind
  have none : (frame.data.length : Int) = 0 := by
    rw [behind]
    dsimp only
    split_ifs with status
    · obtain ⟨error, refused⟩ := garbled status
      rw [refused]
    · rfl
  exact List.length_eq_zero_iff.mp (by omega)

theorem data_length (opened : Machine.content frame.header frame.body = .ok (.response inner body))
    (status : inner.status = kXR_status) {info : StatusInfo} (parsed : parseStatus body = .ok info) :
    (frame.data.length : Int) = info.dlen := by
  have behind := frame.behind
  rw [dataBehind, opened] at behind
  dsimp only at behind
  rw [if_pos status, parsed] at behind
  exact behind

theorem data_notice {info : AttnInfo}
    (opened : Machine.content frame.header frame.body = .ok (.notice info)) : frame.data = [] := by
  have behind := frame.behind
  rw [dataBehind, opened] at behind
  exact List.length_eq_zero_iff.mp (by dsimp only at behind; omega)

end ServerFrame

structure Submission where
  sid : Nat
  request : Request
  link : Nat

/-- The last the caller was told of a submission that is still in flight. -/
inductive Standing
  | asked
  | waits
  | redirected
  deriving DecidableEq

structure World (Body : Type) where
  machine : Machine Body
  asked : List Submission := []
  /-- The submission a stream id was last issued to. -/
  live : Nat → Option Nat := fun _ => none
  receipts : Nat → Nat := fun _ => 1
  standing : Nat → Standing := fun _ => .asked
  lost : Nat → Bool := fun _ => false
  wire : Nat → Bytes := fun _ => []
  sent : List Sent := []

inductive Deed
  | call (call : Call)
  | sends (sent : Sent)

inductive WorldMove
  | client (move : Move)
  | server (sent : Sent)

namespace World

variable {Body : Type}

def answers (world : World Body) (tag : Nat) : List ServerFrame :=
  (world.sent.filter fun sent => sent.tag = some tag).map Sent.frame

/-- The server has received a submission more often than it has answered it. -/
def owes (world : World Body) (tag : Nat) : Bool :=
  (world.answers tag).countP ServerFrame.closes < world.receipts tag

def told (live : Nat → Option Nat) (standing : Nat → Standing) : Event → Nat → Standing
  | .waiting sid _ _ _ true =>
      match live sid with
      | some tag => Function.update standing tag .waits
      | none => standing
  | .redirected sid _ _ =>
      match live sid with
      | some tag => Function.update standing tag .redirected
      | none => standing
  | _ => standing

/-- A link goes: what is on its way is lost, and so is every answer due on it. -/
def drop (link : Nat) (world : World Body) : World Body :=
  { world with
    wire := Function.update world.wire link []
    lost := fun tag => world.lost tag ||
      (world.asked[tag]?).any fun submission => submission.link = link }

variable [Exchange Body] (installation : Installation Body)

def step (move : WorldMove) (world : World Body) : World Body :=
  match move with
  | .server sent =>
      { world with
        wire := Function.update world.wire sent.link (world.wire sent.link ++ sent.bytes)
        sent := world.sent ++ [sent] }
  | .client move =>
      let after := { world with machine := Machine.step installation move world.machine }
      match move with
      | .submit request path arriveOnPath =>
          match Machine.returned (Machine.submit request path arriveOnPath world.machine) with
          | none => after
          | some sid =>
              { after with
                asked := world.asked ++ [⟨sid, request, answerLink request arriveOnPath⟩]
                live := Function.update world.live sid (some world.asked.length) }
      | .resume sid =>
          if world.machine.pending.contains sid then
            match world.live sid with
            | some tag =>
                { after with
                  receipts := Function.update world.receipts tag (world.receipts tag + 1)
                  standing := Function.update world.standing tag .asked }
            | none => after
          else after
      | .feed data link =>
          { after with
            wire := Function.update world.wire link ((world.wire link).drop data.length) }
      | .turn link =>
          { after with
            standing := (Machine.reported ⟨world.machine, .turn link, after.machine⟩).foldl
              (told world.live) world.standing }
      | .forgetPath link | .eof link => drop link after
      | _ => after

def news (entry : Entry WorldMove (World Body)) : List Event :=
  match entry.label with
  | .client move => Machine.reported ⟨entry.before.machine, move, entry.after.machine⟩
  | .server _ => []

def moves (deed : Deed) (world : World Body) : List WorldMove :=
  match deed with
  | .call call => (Machine.moves installation call world.machine).map .client
  | .sends sent => [.server sent]

def movesOf : List Deed → World Body → List WorldMove
  | [], _ => []
  | deed :: rest, world =>
      let first := moves installation deed world
      first ++ movesOf rest (run (step installation) first world)

/-- Every move of a sequence of deeds, with the world before and after it. -/
def traced (deeds : List Deed) (world : World Body) : List (Entry WorldMove (World Body)) :=
  history (step installation) (movesOf installation deeds world) world

omit [Exchange Body] in
def holder (world : World Body) (sid : Nat) : Option (Nat × Submission) :=
  (world.live sid).bind fun tag => (world.asked[tag]?).map fun submission => (tag, submission)

omit [Exchange Body] in
/-- A server that answers each request it received at most once, with that
request's stream id and on the link it designates; bytes that arrive are the next
on their link, data paths alone are lost, and a stream is released only after it
was redirected. -/
def lawful (entry : Entry WorldMove (World Body)) : Bool :=
  let world := entry.before
  match entry.label with
  | .server sent =>
      match sent.tag with
      | none =>
          match Machine.content sent.frame.header sent.frame.body with
          | .ok (.notice _) => true
          | _ => false
      | some tag =>
          match world.asked[tag]?, Machine.content sent.frame.header sent.frame.body with
          | some submission, .ok (.response inner _) =>
              sent.link = submission.link && !world.lost tag && world.owes tag &&
                inner.streamid = submission.sid
          | _, _ => false
  | .client move =>
      match move with
      | .submit _ _ _ | .resume _ | .turn _ | .dataToSend | .pathDataToSend _ | .nextEvent => true
      | .feed data link => data.isPrefixOf (world.wire link)
      | .eof link | .forgetPath link => link ≠ 0
      | .release sid => !world.machine.pending.contains sid ||
          (holder world sid).any fun held => world.standing held.1 = .redirected
      | .start | .close _ | .tlsEstablished => false

omit [Exchange Body] in
/-- A stream is sent again only after a `kXR_wait`, and a path is dropped only when
every stream on it has its answer due there. -/
def careful (entry : Entry WorldMove (World Body)) : Bool :=
  let world := entry.before
  match entry.label with
  | .client (.resume sid) => !world.machine.pending.contains sid ||
      (holder world sid).any fun held => world.standing held.1 = .waits
  | .client (.eof link) | .client (.forgetPath link) =>
      (Machine.streamsOn link world.machine).all fun stream =>
        (holder world stream.1).any fun held => held.2.link = link
  | _ => true

omit [Exchange Body] in
/-- An event carries the request of the submission that holds its stream, and what
the server sent in answer to that very submission. -/
def Paired (world : World Body) : Event → Prop
  | .completed sid request data _ => ∃ tag submission, world.live sid = some tag ∧
      world.asked[tag]? = some submission ∧ submission.sid = sid ∧ submission.request = request ∧
      data = (world.answers tag).flatMap ServerFrame.payload ∧
      ∃ frame ∈ world.answers tag, frame.closes = true
  | .chunk sid request data => ∃ tag submission, world.live sid = some tag ∧
      world.asked[tag]? = some submission ∧ submission.sid = sid ∧ submission.request = request ∧
      ∃ frame ∈ world.answers tag, data = frame.payload
  | .failed (some sid) (some request) error =>
      (∃ message, error = .protocolError message ∨ error = .connectionError message) ∨
      ∃ tag submission, world.live sid = some tag ∧ world.asked[tag]? = some submission ∧
        submission.sid = sid ∧ submission.request = request ∧
        ∃ frame ∈ world.answers tag, ∃ inner body info path,
          Machine.content frame.header frame.body = .ok (.response inner body) ∧
          inner.status = kXR_error ∧ parseError body = .ok info ∧
          error = Machine.serverError info path
  | _ => True

end World

end XRootDClient.Proto

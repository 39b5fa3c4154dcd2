import XRootDClient.Proto.Signing
import XRootDClient.Proto.Submit

/-!
# What a signature covers

A frame whose opcode requires a signature is queued right behind one, on the same
link and with the same stream id. What is signed is cut out of the frame by the length
its header declares, so it leaves out what the header declares and the frame does not
hold: the data that travels on a path. The farewell of `close` is queued without asking
the signer.
-/

set_option autoImplicit false

namespace XRootDClient

open Lib Lib.BigEndian Lib.Stateful Lib.Run Auth Crypto Proto

def Crypto.Signer.message (seqno : Nat) (frame : Bytes) : Bytes :=
  BigEndian.encode 8 seqno ++ frame.take REQUEST_HDRLEN ++ Signer.declaredPayload frame

theorem declared_payload {request : Request} {sid : Nat} {plain body : Bytes}
    (encoded : Proto.encode request sid = .ok plain) (payload : request.payload = .ok body) :
    Signer.declaredPayload plain = body ++ request.trailer.take request.pathData.length := by
  obtain ⟨params, written, -, sixteen, same, short, -, rfl⟩ := encode_ok encoded
  rw [payload] at same
  cases same
  have front : ∀ tail : Bytes, (BigEndian.encode 2 (sid % 0x10000) ++
      (BigEndian.encode 2 request.opcode ++ (params ++ tail))).drop (REQUEST_HDRLEN - 4) = tail := by
    intro tail
    rw [← List.append_assoc, ← List.append_assoc, List.drop_left' (by simp [sixteen, REQUEST_HDRLEN])]
  have behind : ∀ tail : Bytes, (BigEndian.encode 2 (sid % 0x10000) ++
      (BigEndian.encode 2 request.opcode ++ (params ++ (BigEndian.encode 4
        (body.length + request.pathData.length) ++ tail)))).drop REQUEST_HDRLEN = tail := by
    intro tail
    rw [← List.append_assoc, ← List.append_assoc, ← List.append_assoc,
      List.drop_left' (by simp [sixteen])]
  have length : signed 4 (decode (BigEndian.encode 4 (body.length + request.pathData.length))) =
      ((body.length + request.pathData.length : Nat) : Int) := by
    rw [decode_encode (lt_of_le_of_lt short (by decide)), signed, if_pos]
    exact lt_of_le_of_lt short (by decide)
  unfold Signer.declaredPayload
  have field : ∀ tail : Bytes, (BigEndian.encode 4 (body.length + request.pathData.length) ++
      tail).take 4 = BigEndian.encode 4 (body.length + request.pathData.length) := by
    intro tail
    exact List.take_left' (by simp)
  rw [front, behind, field, length]
  dsimp only
  rw [Int.toNat_natCast, List.take_append]
  rw [List.take_of_length_le (by omega), Nat.add_sub_cancel_left]

namespace Proto.Machine

variable {Body : Type}

def requires (machine : Machine Body) (opcode : Nat) : Option Signer :=
  machine.signer.filter fun signer => signer.required opcode

/-- These bytes are the frame of a request behind the signature its opcode requires,
which covers the sequence number, the header and all the bytes the header declares;
or the frame alone, if none is required. -/
def Sealing (machine : Machine Body) (request : Request) (sid : Nat) (added : Bytes) : Prop :=
  ∃ plain body, encode request sid = .ok plain ∧ request.payload = .ok body ∧
    match machine.requires request.opcode with
    | none => added = plain
    | some signer => ∃ signature,
        encode (Request.Sigver request.opcode (signer.seqno + 1)
          (Sha256.hmac signer.key (Signer.message (signer.seqno + 1) plain))) sid = .ok signature ∧
        added = signature ++ plain ∧
        Signer.message (signer.seqno + 1) plain = BigEndian.encode 8 (signer.seqno + 1) ++
          plain.take REQUEST_HDRLEN ++ (body ++ request.pathData)

/-- The link a request is queued on, and what is queued behind its frame there. -/
def route (request : Request) (arriveOnPath : Bool) : Outbox × Bytes :=
  if arriveOnPath && request.pathid ≠ 0 then (.path request.pathid, request.pathData)
  else (.control, [])

/-- Every request frame the call queues is sealed as its opcode requires. -/
def Seals (machine : Machine Body) : Call → Prop
  | .submit request path arriveOnPath => ∀ sid submitted,
      submit request path arriveOnPath machine = .ok sid submitted →
      ∃ added pending, submitted.queuedOn (route request arriveOnPath).1 =
          machine.queuedOn (route request arriveOnPath).1 ++
            (added ++ (route request arriveOnPath).2) ∧
        Sealing machine request sid added ∧
        submitted.pending.get? sid = some pending ∧ pending.frame = added
  | .close graceful => ∀ closed, close graceful machine = .ok () closed →
      closed.out = machine.out ∨ ∃ sid added, closed.out = machine.out ++ added ∧
        Sealing machine (Request.EndSession machine.sessionId) sid added
  | _ => True

/-- No byte that the header declares is sent apart from the frame, and no farewell
that requires a signature is sent. -/
def Coverable (machine : Machine Body) : Call → Prop
  | .submit request _ _ => Accepts machine request → machine.requires request.opcode ≠ none →
      request.pathData <+: request.trailer
  | .close graceful => graceful = true → machine.sessionId ≠ [] →
      machine.Room → machine.requires kXR_endsess = none
  | _ => True

theorem requires_cases (machine : Machine Body) (opcode : Nat) :
    (machine.requires opcode = none ∧
      ∀ signer, machine.signer = some signer → signer.required opcode = false) ∨
    ∃ signer, machine.requires opcode = some signer ∧ machine.signer = some signer ∧
      signer.required opcode = true := by
  unfold requires
  cases held : machine.signer with
  | none => exact .inl ⟨rfl, by simp⟩
  | some signer =>
      cases needed : signer.required opcode with
      | false =>
          left
          refine ⟨by simp [needed], ?_⟩
          intro other same
          cases same
          exact needed
      | true => exact .inr ⟨signer, by simp [needed], rfl, needed⟩

theorem sealed_shape {machine left : Machine Body} {request : Request} {sid : Nat}
    {plain frame : Bytes} (encoded : encode request sid = .ok plain)
    (made : sealed request sid plain machine = .ok frame left) :
    match machine.requires request.opcode with
    | none => frame = plain
    | some signer => ∃ signature,
        encode (Request.Sigver request.opcode (signer.seqno + 1)
          (Sha256.hmac signer.key (Signer.message (signer.seqno + 1) plain))) sid = .ok signature ∧
        frame = signature ++ plain := by
  have code : Signer.frameOpcode plain = request.opcode := by
    simpa using Signer.frame_opcode encoded []
  have ran : sealed request sid plain machine = .ok frame left := made
  unfold sealed at made
  simp only [run_bind, run_get] at made
  rcases requires_cases machine request.opcode with ⟨free, unneeded⟩ | ⟨signer, needs, held, needed⟩
  · rw [free]
    cases held : machine.signer with
    | none =>
        simp only [held, run_pure] at made
        cases made
        rfl
    | some signer =>
        have unsigned : signer.sign plain = (.ok none, signer) := by
          rw [Signer.sign, code, if_neg (by simp [unneeded signer held])]
        simp only [held, unsigned, run_bind, run_modify, attempt_ok, run_pure] at made
        cases made
        rfl
  · rw [needs]
    have countable := (sealed_returns_iff encoded machine).mp ⟨frame, left, ran⟩
    have counted := countable signer held needed
    have number : Writer.u64 (signer.seqno + 1) =
        .ok (BigEndian.encode 8 (signer.seqno + 1)) := by
      rw [Writer.u64, Writer.unsigned, if_pos counted]
    have signed : signer.sign plain = (.ok (some (signer.seqno + 1, Sha256.hmac signer.key
        (Signer.message (signer.seqno + 1) plain))),
        { signer with seqno := signer.seqno + 1 }) := by
      simp only [Signer.sign, code, if_pos needed, number, bind, Except.bind, pure, Except.pure,
        Signer.message]
    simp only [held, signed, run_bind, run_modify, attempt_ok] at made
    cases written : encode (Request.Sigver request.opcode (signer.seqno + 1)
        (Sha256.hmac signer.key (Signer.message (signer.seqno + 1) plain))) sid with
    | error error =>
        rw [written, attempt_error] at made
        cases made
    | ok signature =>
        rw [written, attempt_ok] at made
        cases made
        exact ⟨signature, written, rfl⟩

theorem message_whole {request : Request} {sid : Nat} {plain body : Bytes} (seqno : Nat)
    (encoded : encode request sid = .ok plain) (payload : request.payload = .ok body) :
    Signer.message seqno plain = BigEndian.encode 8 seqno ++ plain.take REQUEST_HDRLEN ++
      (body ++ request.pathData) ↔ request.pathData <+: request.trailer := by
  unfold Signer.message
  rw [declared_payload encoded payload, List.append_cancel_left_eq, List.append_cancel_left_eq,
    List.prefix_iff_eq_take]
  exact eq_comm

theorem enqueue_route (request : Request) (sid : Nat) (path : Text) (arriveOnPath : Bool)
    (frame : Bytes) (machine : Machine Body) :
    (enqueue request sid path arriveOnPath frame machine).queuedOn (route request arriveOnPath).1 =
      machine.queuedOn (route request arriveOnPath).1 ++
        (frame ++ (route request arriveOnPath).2) := by
  rw [enqueue_queued]
  unfold routed route
  generalize (arriveOnPath && request.pathid ≠ 0) = whole
  cases whole with
  | true => simp
  | false => simp

theorem submit_queues {machine submitted : Machine Body} {request : Request} {path : Text}
    {arriveOnPath : Bool} {sid : Nat}
    (issued : submit request path arriveOnPath machine = .ok sid submitted) :
    ∃ plain frame, encode request sid = .ok plain ∧
      (match machine.requires request.opcode with
        | none => frame = plain
        | some signer => ∃ signature,
            encode (Request.Sigver request.opcode (signer.seqno + 1) (Sha256.hmac signer.key
              (Signer.message (signer.seqno + 1) plain))) sid = .ok signature ∧
            frame = signature ++ plain) ∧
      submitted.queuedOn (route request arriveOnPath).1 =
        machine.queuedOn (route request arriveOnPath).1 ++
          (frame ++ (route request arriveOnPath).2) ∧
      submitted.pending.get? sid = some (pendingOf request path frame) := by
  simp only [submit, run_bind, run_get] at issued
  by_cases unready : machine.state ≠ .READY
  · rw [if_pos unready] at issued
    cases issued
  rw [if_neg unready, run_bind] at issued
  rcases acquire_sid_cases machine with ⟨given, free, next, acquired, ran⟩ | ⟨error, spent, ran⟩
  · simp only [ran, run_bind, send_run] at issued
    cases encoded : encode request given with
    | error error =>
        simp only [encoded] at issued
        cases issued
    | ok plain =>
        simp only [encoded] at issued
        cases made : sealed request given plain { machine with free := free, nextSid := next } with
        | error error left =>
            simp only [made] at issued
            cases issued
        | ok frame left =>
            simp only [made, run_pure] at issued
            cases issued
            have shape := sealed_shape encoded made
            refine ⟨plain, frame, encoded, shape, ?_, ?_⟩
            · rw [enqueue_route]
              have queued : ∀ box, left.queuedOn box = machine.queuedOn box := by
                intro box
                rcases sealed_cases request sid plain { machine with free := free, nextSid := next }
                  encoded with ⟨other, signer, -, done⟩ | ⟨error, signer, -, done⟩
                · rw [made] at done
                  cases done
                  cases box <;> rfl
                · rw [made] at done
                  cases done
              rw [queued]
            · rw [(enqueue_table ..).2, Dict.get_set_self]
  · simp only [ran] at issued
    cases issued

theorem submit_seals_iff {machine submitted : Machine Body} {request : Request} {path : Text}
    {arriveOnPath : Bool} {sid : Nat}
    (issued : submit request path arriveOnPath machine = .ok sid submitted) :
    (∃ added pending, submitted.queuedOn (route request arriveOnPath).1 =
        machine.queuedOn (route request arriveOnPath).1 ++
          (added ++ (route request arriveOnPath).2) ∧
      Sealing machine request sid added ∧
      submitted.pending.get? sid = some pending ∧ pending.frame = added) ↔
    (machine.requires request.opcode ≠ none → request.pathData <+: request.trailer) := by
  obtain ⟨plain, frame, encoded, shape, queued, kept⟩ := submit_queues issued
  obtain ⟨params, body, -, -, payload, -⟩ := encode_ok encoded
  constructor
  · rintro ⟨added, pending, -, ⟨other, content, again, same, whole⟩, -⟩ needs
    rw [encoded] at again
    rw [payload] at same
    cases again
    cases same
    cases held : machine.requires request.opcode with
    | none => exact absurd held needs
    | some signer =>
        rw [held] at whole
        obtain ⟨signature, -, -, message⟩ := whole
        exact (message_whole (signer.seqno + 1) encoded payload).mp message
  · intro inside
    refine ⟨frame, pendingOf request path frame, queued, ⟨plain, body, encoded, payload, ?_⟩, kept,
      rfl⟩
    cases held : machine.requires request.opcode with
    | none =>
        rw [held] at shape
        exact shape
    | some signer =>
        rw [held] at shape
        obtain ⟨signature, written, joined⟩ := shape
        refine ⟨signature, written, joined, ?_⟩
        exact (message_whole (signer.seqno + 1) encoded payload).mpr (inside (by simp [held]))

theorem farewell_encodes (sessionId : Bytes) (sid : Nat) :
    ∃ frame, encode (Request.EndSession sessionId) sid = .ok frame ∧ frame.length = 24 := by
  obtain ⟨frame, encoded⟩ := @encode_writes (Request.EndSession sessionId) sid
    (Writer.padded sessionId 16) [] rfl (Writer.padded_length sessionId 16) rfl
    (by simp [Request.EndSession]) (show kXR_endsess < 0x10000 by decide)
  refine ⟨frame, encoded, ?_⟩
  obtain ⟨params, body, -, sixteen, payload, -, -, rfl⟩ := encode_ok encoded
  cases payload
  simp [sixteen, Request.EndSession]

theorem close_seals_iff (machine : Machine Body) (ready : machine.state = .READY)
    (graceful : Bool) : Seals machine (.close graceful) ↔ Coverable machine (.close graceful) := by
  simp only [Seals, Coverable, close, run_bind, run_get]
  by_cases polite : machine.state = .READY ∧ graceful = true ∧ machine.sessionId ≠ []
  · rw [if_pos polite]
    simp only [run_bind]
    rcases acquire_sid_cases machine with ⟨sid, free, next, acquired, ran⟩ | ⟨error, spent, ran⟩
    · obtain ⟨frame, encoded, length⟩ := farewell_encodes machine.sessionId sid
      simp only [ran, queue_run, encoded, run_modify]
      constructor
      · intro sealing _ _ _
        rcases sealing _ rfl with same | ⟨other, added, joined, plain, body, again, -, whole⟩
        · have size := congrArg List.length same
          simp only [emit, List.length_append] at size
          omega
        · have equal : added = frame := (List.append_cancel_left joined).symm
          cases held : machine.requires kXR_endsess with
          | none => rfl
          | some signer =>
              rw [show (Request.EndSession machine.sessionId).opcode = kXR_endsess from rfl,
                held] at whole
              obtain ⟨signature, written, split, -⟩ := whole
              obtain ⟨-, -, some⟩ := sigver_fields written []
              obtain ⟨known, same, short⟩ := farewell_encodes machine.sessionId other
              rw [again] at same
              cases same
              have size := congrArg List.length split
              rw [equal, List.length_append] at size
              omega
      · intro free closed done
        cases done
        right
        refine ⟨sid, frame, rfl, frame, [], encoded, rfl, ?_⟩
        rw [show (Request.EndSession machine.sessionId).opcode = kXR_endsess from rfl,
          free polite.2.1 polite.2.2 acquired.room]
    · simp only [ran]
      constructor
      · intro _ _ _ room
        exact absurd room (acquire_refused ran)
      · rintro - closed done
        cases done
  · rw [if_neg polite]
    constructor
    · intro _ kind named
      exact absurd ⟨ready, kind, named⟩ polite
    · rintro - closed done
      cases done
      exact .inl rfl

/-- On every machine that is up, whatever its signer, its level and its overrides: a
call queues every frame sealed as its opcode requires exactly if nothing that has to be
signed is sent apart from its frame, and no farewell that has to be signed is sent. -/
theorem signatures_cover_iff (machine : Machine Body) (ready : machine.state = .READY)
    (call : Call) : Seals machine call ↔ Coverable machine call := by
  cases call with
  | submit request path arriveOnPath =>
      constructor
      · intro sealing accepts
        obtain ⟨sid, submitted, issued⟩ :=
          (submit_returns_iff ready request path arriveOnPath).mpr accepts
        exact (submit_seals_iff issued).mp (sealing sid submitted issued)
      · intro coverable sid submitted issued
        apply (submit_seals_iff issued).mpr
        exact coverable ((submit_returns_iff ready request path arriveOnPath).mp
          ⟨sid, submitted, issued⟩)
  | close graceful => exact close_seals_iff machine ready graceful
  | start | resume | release | tlsEstablished | receiveData | forgetPath | dataToSend
    | pathDataToSend | nextEvent => exact Iff.rfl

theorem removal_sealed :
    signingMachine.state = .READY ∧ (signingMachine.requires kXR_rm).isSome = true ∧
      Seals signingMachine (.submit removal [] false) := by
  have ready : signingMachine.state = .READY := by decide +kernel
  refine ⟨ready, by decide +kernel, ?_⟩
  apply (signatures_cover_iff signingMachine ready (.submit removal [] false)).mpr
  intro _ _
  exact List.nil_prefix

/-- The data of a write goes down a data path, its header declares two bytes of it, and
the signature covers none. -/
theorem path_data_unsigned :
    signingMachine.state = .READY ∧ Accepts signingMachine spread ∧
      (signingMachine.requires kXR_write).isSome = true ∧
      ¬Seals signingMachine (.submit spread [] false) := by
  have ready : signingMachine.state = .READY := by decide +kernel
  have issued : submit spread [] false signingMachine =
      .ok 4 (final (submit spread [] false signingMachine)) := returned_ok (by decide +kernel)
  have needs : (signingMachine.requires kXR_write).isSome = true := by decide +kernel
  refine ⟨ready, ?_, needs, ?_⟩
  · exact (submit_returns_iff ready spread [] false).mp ⟨_, _, issued⟩
  · intro sealing
    have inside := (submit_seals_iff issued).mp (sealing _ _ issued)
    have apart : ¬spread.pathData <+: spread.trailer := by decide
    apply apart
    apply inside
    intro none
    have same : spread.opcode = kXR_write := rfl
    rw [same] at none
    rw [none] at needs
    cases needs

end Proto.Machine

end XRootDClient

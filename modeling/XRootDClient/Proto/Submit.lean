import XRootDClient.Proto.Ids

/-!
# Submitting and sending again

A stream id is drawn, and the signer counts, before everything that can raise has
run, and neither is given back: a `submit` that raises has always used up an id.
What a `submit` that returns puts on the links is kept beside the stream as long as
it is in flight, and `resume` queues the copy.
-/

set_option autoImplicit false

namespace XRootDClient.Proto

open Lib Lib.BigEndian Lib.Stateful Lib.Run Auth Crypto

/-- The parts of the request can be written into a frame. -/
def Request.Encodable (request : Request) : Prop :=
  ∃ params body, request.params = .ok params ∧ params.length = 16 ∧ request.payload = .ok body ∧
    body.length + request.pathData.length ≤ MAX_FRAME_PAYLOAD ∧ request.opcode < 0x10000

theorem encodable_iff (request : Request) (streamid : Nat) :
    (∃ frame, encode request streamid = .ok frame) ↔ request.Encodable := by
  constructor
  · rintro ⟨frame, encoded⟩
    obtain ⟨params, body, written, sixteen, payload, short, code, -⟩ := encode_ok encoded
    exact ⟨params, body, written, sixteen, payload, short, code⟩
  · rintro ⟨params, body, written, sixteen, payload, short, code⟩
    exact encode_writes request streamid written sixteen payload short code

theorem sigver_encodable {opcode seqno : Nat} {mac : Bytes} (code : opcode < 0x10000)
    (counted : seqno < 256 ^ 8) (short : mac.length ≤ MAX_FRAME_PAYLOAD) :
    (Request.Sigver opcode seqno mac).Encodable := by
  have target : Writer.u16 opcode = .ok (BigEndian.encode 2 opcode) := by
    rw [Writer.u16, Writer.unsigned, if_pos (show opcode < 256 ^ 2 from code)]
  have number : Writer.u64 seqno = .ok (BigEndian.encode 8 seqno) := by
    rw [Writer.u64, Writer.unsigned, if_pos counted]
  refine ⟨BigEndian.encode 2 opcode ++ BigEndian.encode 1 0 ++ BigEndian.encode 1 0 ++
    BigEndian.encode 8 seqno ++ BigEndian.encode 1 kXR_SHA256_sig ++ Writer.zeros 3, mac,
    ?_, by simp [Writer.zeros], rfl, short, show kXR_sigver < 0x10000 by decide⟩
  simp only [Request.Sigver, bind, Except.bind, target, number]
  rfl

namespace Machine

variable {Body : Type}

def exhausted : Exception := .protocolError (str "stream id space exhausted")

theorem acquire_sid_run (machine : Machine Body) :
    acquireSid machine = match machine.free with
      | sid :: free => .ok sid { machine with free := free }
      | [] =>
          if machine.pending.contains machine.nextSid then
            .error exhausted { machine with nextSid := nextAfter machine.nextSid }
          else .ok machine.nextSid { machine with nextSid := nextAfter machine.nextSid } := by
  unfold acquireSid
  simp only [run_bind, run_get]
  cases machine.free with
  | cons sid rest => rfl
  | nil =>
      simp only [run_bind, run_set]
      by_cases taken : machine.pending.contains machine.nextSid = true
      · rw [if_pos taken, if_pos taken]
        rfl
      · rw [if_neg taken, if_neg taken]
        rfl

/-- A released id is waiting, or the id the counter stands at is not in flight. -/
def Room (machine : Machine Body) : Prop :=
  machine.free ≠ [] ∨ ¬machine.inFlight machine.nextSid

theorem Acquired.room {machine : Machine Body} {sid next : Nat} {free : List Nat}
    (acquired : Acquired machine sid free next) : machine.Room := by
  cases acquired with
  | recycled _ _ head =>
      left
      rw [head]
      exact List.cons_ne_nil _ _
  | fresh spent absent =>
      right
      rw [inFlight, ← Dict.get_eq_none]
      exact absent

theorem acquire_refused {machine left : Machine Body} {error : Exception}
    (refused : acquireSid machine = .error error left) : ¬machine.Room := by
  rw [acquire_sid_run] at refused
  cases spent : machine.free with
  | cons sid rest =>
      rw [spent] at refused
      cases refused
  | nil =>
      rw [spent] at refused
      dsimp only at refused
      split_ifs at refused with taken
      rw [Dict.contains, Option.isSome_iff_exists] at taken
      obtain ⟨pending, found⟩ := taken
      rintro (more | absent)
      · exact more spent
      · exact absent (Dict.mem_keys_of_get found)

/-- The next signature, where one is required, has a number that can be written. -/
def Countable (signer : Option Signer) (opcode : Nat) : Prop :=
  ∀ held, signer = some held → held.required opcode = true → held.seqno + 1 < 256 ^ 8

theorem sign_counted {signer : Signer} {frame : Bytes}
    (needed : signer.required (Signer.frameOpcode frame) = true)
    (counted : signer.seqno + 1 < 256 ^ 8) :
    ∃ mac, mac.length ≤ MAX_FRAME_PAYLOAD ∧ signer.sign frame =
      (.ok (some (signer.seqno + 1, mac)), { signer with seqno := signer.seqno + 1 }) := by
  have number : Writer.u64 (signer.seqno + 1) = .ok (BigEndian.encode 8 (signer.seqno + 1)) := by
    rw [Writer.u64, Writer.unsigned, if_pos counted]
  refine ⟨Sha256.hmac signer.key (BigEndian.encode 8 (signer.seqno + 1) ++
    frame.take REQUEST_HDRLEN ++ Signer.declaredPayload frame), ?_, ?_⟩
  · rw [Sha256.hmac_length]
    decide
  · simp only [Signer.sign, if_pos needed, number, bind, Except.bind, pure, Except.pure]

theorem sign_uncounted {signer : Signer} {frame : Bytes}
    (needed : signer.required (Signer.frameOpcode frame) = true)
    (uncounted : ¬signer.seqno + 1 < 256 ^ 8) :
    ∃ error, signer.sign frame = (.error error, { signer with seqno := signer.seqno + 1 }) := by
  refine ⟨.structError (str "argument out of range"), ?_⟩
  have number : Writer.u64 (signer.seqno + 1) = .error (.structError (str "argument out of range")) := by
    rw [Writer.u64, Writer.unsigned, if_neg uncounted]
  simp only [Signer.sign, if_pos needed, number, bind, Except.bind]

theorem sealed_returns_iff {request : Request} {sid : Nat} {plain : Bytes}
    (encoded : encode request sid = .ok plain) (machine : Machine Body) :
    (∃ frame left, sealed request sid plain machine = .ok frame left) ↔
      Countable machine.signer request.opcode := by
  have code : Signer.frameOpcode plain = request.opcode := by
    simpa using Signer.frame_opcode encoded []
  unfold sealed
  simp only [run_bind, run_get]
  cases held : machine.signer with
  | none =>
      constructor
      · rintro - signer same
        cases same
      · intro _
        exact ⟨plain, machine, rfl⟩
  | some signer =>
      by_cases needed : signer.required request.opcode = true
      · by_cases counted : signer.seqno + 1 < 256 ^ 8
        · obtain ⟨mac, short, signed⟩ := sign_counted (code ▸ needed) counted
          obtain ⟨params, body, -, -, -, -, bounded, -⟩ := encode_ok encoded
          obtain ⟨signature, written⟩ := (encodable_iff _ sid).mpr
            (sigver_encodable bounded counted short)
          simp only [signed, run_bind, run_modify, attempt_ok, written, run_pure]
          constructor
          · rintro - other same -
            cases same
            exact counted
          · intro _
            exact ⟨_, _, rfl⟩
        · obtain ⟨error, signed⟩ := sign_uncounted (code ▸ needed) counted
          simp only [signed, run_bind, run_modify, attempt_error]
          constructor
          · rintro ⟨frame, left, done⟩
            cases done
          · intro countable
            exact absurd (countable signer rfl needed) counted
      · have unsigned : signer.sign plain = (.ok none, signer) := by
          rw [Signer.sign, code, if_neg needed]
        simp only [unsigned, run_bind, run_modify, attempt_ok, run_pure]
        constructor
        · rintro - other same again
          cases same
          exact absurd again needed
        · intro _
          exact ⟨plain, _, rfl⟩

/-- What `submit` needs of a ready machine and of the request to return. -/
structure Accepts (machine : Machine Body) (request : Request) : Prop where
  encodable : request.Encodable
  room : machine.Room
  countable : Countable machine.signer request.opcode

theorem submit_returns_iff {machine : Machine Body} (ready : machine.state = .READY)
    (request : Request) (path : Text) (arriveOnPath : Bool) :
    (∃ sid left, submit request path arriveOnPath machine = .ok sid left) ↔
      Accepts machine request := by
  simp only [submit, run_bind, run_get]
  rw [if_neg (not_not.mpr ready), run_bind]
  rcases acquire_sid_cases machine with ⟨sid, free, next, acquired, ran⟩ | ⟨error, spent, ran⟩
  · simp only [ran, run_bind, send_run]
    cases encoded : encode request sid with
    | error error =>
        constructor
        · rintro ⟨given, left, done⟩
          cases done
        · intro accepts
          obtain ⟨frame, written⟩ := (encodable_iff request sid).mpr accepts.encodable
          rw [written] at encoded
          cases encoded
    | ok plain =>
        have sealing := sealed_returns_iff encoded { machine with free := free, nextSid := next }
        cases made : sealed request sid plain { machine with free := free, nextSid := next } with
        | error error left =>
            simp only [made]
            constructor
            · rintro ⟨given, left, done⟩
              cases done
            · intro accepts
              obtain ⟨frame, left, done⟩ := sealing.mpr accepts.countable
              rw [made] at done
              cases done
        | ok frame left =>
            simp only [made, run_pure]
            constructor
            · intro _
              exact ⟨(encodable_iff request sid).mp ⟨plain, encoded⟩, acquired.room,
                sealing.mp ⟨frame, left, made⟩⟩
            · intro _
              exact ⟨sid, _, rfl⟩
  · simp only [ran]
    constructor
    · rintro ⟨given, left, done⟩
      cases done
    · intro accepts
      exact absurd accepts.room (acquire_refused ran)

/-- The machine is exactly as it was, as far as `submit` could have changed it. -/
structure Untouched (before after : Machine Body) : Prop where
  free : after.free = before.free
  nextSid : after.nextSid = before.nextSid
  signer : after.signer = before.signer
  out : after.out = before.out
  outPath : after.outPath = before.outPath
  pending : after.pending = before.pending

theorem submit_spends {machine left : Machine Body} (ready : machine.state = .READY)
    {request : Request} {path : Text} {arriveOnPath : Bool} {error : Exception}
    (refused : submit request path arriveOnPath machine = .error error left) :
    left.free ≠ machine.free ∨ left.nextSid ≠ machine.nextSid := by
  have moved := submit_move request path arriveOnPath machine
  simp only [refused, returned, final_error] at moved
  cases moved with
  | refused unready => exact absurd ready unready
  | exhausted spent => exact .inr (next_after_moves machine.nextSid)
  | raised acquired counted =>
      cases acquired with
      | recycled _ _ head =>
          left
          intro same
          rw [head] at same
          exact List.cons_ne_self _ _ same.symm
      | fresh spent absent => exact .inr (next_after_moves machine.nextSid)

/-- If `submit` raises, the machine is as it was; and it says the id space is
exhausted only when every id in range is in flight. -/
def Atomic (machine : Machine Body) (request : Request) (path : Text) (arriveOnPath : Bool) :
    Prop :=
  ∀ error left, submit request path arriveOnPath machine = .error error left →
    Untouched machine left ∧
      (error = exhausted → ∀ sid, 4 ≤ sid → sid ≤ 0xFFFF → machine.inFlight sid)

theorem submit_atomic_iff (machine : Machine Body) (ready : machine.state = .READY)
    (request : Request) (path : Text) (arriveOnPath : Bool) :
    Atomic machine request path arriveOnPath ↔ Accepts machine request := by
  rw [← submit_returns_iff ready request path arriveOnPath]
  constructor
  · intro atomic
    cases done : submit request path arriveOnPath machine with
    | ok sid left => exact ⟨sid, left, rfl⟩
    | error error left =>
        obtain ⟨untouched, -⟩ := atomic error left done
        rcases submit_spends ready done with freed | counted
        · exact absurd untouched.free freed
        · exact absurd untouched.nextSid counted
  · rintro ⟨sid, left, done⟩ error after refused
    rw [done] at refused
    cases refused

theorem ping_submits :
    plainMachine.state = .READY ∧ Atomic plainMachine Request.Ping [] false := by
  have ready : plainMachine.state = .READY := by decide +kernel
  refine ⟨ready, (submit_atomic_iff plainMachine ready Request.Ping [] false).mpr ⟨?_, ?_, ?_⟩⟩
  · exact ⟨Writer.zeros 16, [], rfl, rfl, rfl, by decide, by decide⟩
  · have idle : plainMachine.pending.keys = [] := by decide +kernel
    right
    rw [inFlight, idle]
    simp
  · intro signer held
    have unsigned : plainMachine.signer = none := by decide +kernel
    rw [unsigned] at held
    cases held

/-- A read from an offset that fits no field raises, and the id drawn for it is gone. -/
theorem failed_submit_spends_id :
    let far := Request.Read [0, 0, 0, 0] (2 ^ 63) 1 0
    plainMachine.state = .READY ∧ plainMachine.nextSid = 4 ∧
      (final (submit far [] false plainMachine)).nextSid = 5 ∧
      (final (submit far [] false plainMachine)).pending = ∅ ∧
      ¬Atomic plainMachine far [] false := by
  intro far
  have ready : plainMachine.state = .READY := by decide +kernel
  refine ⟨ready, by decide +kernel, by decide +kernel, by decide +kernel, ?_⟩
  intro atomic
  cases done : submit far [] false plainMachine with
  | ok sid left =>
      obtain ⟨⟨params, body, written, -⟩, -, -⟩ :=
        (submit_returns_iff ready far [] false).mp ⟨sid, left, done⟩
      cases written
  | error error left =>
      obtain ⟨untouched, -⟩ := atomic error left done
      rcases submit_spends ready done with freed | counted
      · exact freed untouched.free
      · exact counted untouched.nextSid

/-- The outboxes of a machine: the control link's and one for each data path. -/
inductive Outbox
  | control
  | path (pathid : Nat)

def queuedOn (machine : Machine Body) : Outbox → Bytes
  | .control => machine.out
  | .path pathid => machine.outPath.getD pathid []

@[simp] theorem queued_on_control (machine : Machine Body) :
    machine.queuedOn .control = machine.out := rfl

theorem queue_path_queued (pathid : Nat) (data : Bytes) (machine : Machine Body) (other : Nat) :
    (queuePath pathid data machine).queuedOn (.path other) =
      machine.queuedOn (.path other) ++ if other = pathid then data else [] := by
  simp only [queuedOn, queuePath, Dict.getD, Dict.get_set]
  by_cases same : other = pathid
  · rw [if_pos same, if_pos same, same]
    rfl
  · rw [if_neg same, if_neg same, List.append_nil]

def routed (request : Request) (arriveOnPath : Bool) (frame : Bytes) : Outbox → Bytes
  | .control => if arriveOnPath && request.pathid ≠ 0 then [] else frame
  | .path pathid =>
      if pathid = request.pathid then
        if arriveOnPath && request.pathid ≠ 0 then frame ++ request.pathData
        else request.pathData
      else []

theorem enqueue_queued (request : Request) (sid : Nat) (path : Text) (arriveOnPath : Bool)
    (frame : Bytes) (machine : Machine Body) (box : Outbox) :
    (enqueue request sid path arriveOnPath frame machine).queuedOn box =
      machine.queuedOn box ++ routed request arriveOnPath frame box := by
  unfold enqueue routed
  generalize (arriveOnPath && request.pathid ≠ 0) = whole
  cases whole with
  | true =>
      cases box with
      | control => exact (List.append_nil _).symm
      | path pathid => exact queue_path_queued _ _ _ pathid
  | false =>
      by_cases data : request.pathData = []
      · cases box with
        | control => simp [data]
        | path pathid => simp [data, queuedOn]
      · cases box with
        | control => simp [data, queuePath]
        | path pathid =>
            simp only [data, ne_eq, not_false_eq_true, if_true, Bool.false_eq_true, if_false]
            exact queue_path_queued _ _ _ pathid

def copied (pending : Pending) : Outbox → Bytes
  | .control => pending.frame
  | .path pathid => if pathid = pending.pathid then pending.pathBytes else []

theorem resume_queued {machine : Machine Body} {sid : Nat} {pending : Pending}
    (found : machine.pending.get? sid = some pending) :
    ∃ resumed, resume sid machine = .ok () resumed ∧
      ∀ box, resumed.queuedOn box = machine.queuedOn box ++ copied pending box := by
  simp only [resume, run_bind, run_get, found, run_modify]
  by_cases data : pending.pathBytes = []
  · rw [if_neg (not_not.mpr data)]
    refine ⟨_, rfl, fun box => ?_⟩
    cases box with
    | control => rfl
    | path pathid =>
        simp only [copied, data, ite_self, List.append_nil]
        rfl
  · rw [if_pos data, run_modify]
    refine ⟨_, rfl, fun box => ?_⟩
    cases box with
    | control => rfl
    | path pathid =>
        rw [queue_path_queued]
        rfl

def outline (pending : Pending) : Bytes × Nat × Bytes :=
  (pending.frame, pending.pathid, pending.pathBytes)

/-- A stream that is still in flight has its copy of the request unchanged. -/
def Keeps (sid : Nat) (before after : Machine Body) : Prop :=
  ∀ left, after.pending.get? sid = some left →
    ∃ pending, before.pending.get? sid = some pending ∧ outline left = outline pending

section Keeps

variable {sid : Nat} {first second third : Machine Body}

theorem Keeps.same (table : second.pending = first.pending) : Keeps sid first second := by
  intro left found
  rw [table] at found
  exact ⟨left, found, rfl⟩

theorem Keeps.trans (before : Keeps sid first second) (after : Keeps sid second third) :
    Keeps sid first third := by
  intro left found
  obtain ⟨middle, held, unchanged⟩ := after left found
  obtain ⟨pending, known, equal⟩ := before middle held
  exact ⟨pending, known, unchanged.trans equal⟩

theorem Keeps.fewer (table : second.pending.get? sid = none ∨
    second.pending.get? sid = first.pending.get? sid) : Keeps sid first second := by
  intro left found
  rcases table with gone | same
  · rw [gone] at found
    cases found
  · rw [same] at found
    exact ⟨left, found, rfl⟩

theorem Keeps.release (machine : Machine Body) (other : Nat) :
    Keeps sid machine (machine.release other) := by
  apply Keeps.fewer
  rw [release_pending, Dict.get_erase]
  by_cases same : sid = other
  · left
    rw [if_pos same]
  · right
    rw [if_neg same]

theorem Keeps.update {machine : Machine Body} {other : Nat} {pending changed : Pending}
    (found : machine.pending.get? other = some pending) (copy : outline changed = outline pending) :
    Keeps sid machine (updatePending other changed machine) := by
  intro left held
  rw [updatePending, Dict.get_set] at held
  by_cases same : sid = other
  · rw [if_pos same] at held
    cases held
    exact ⟨pending, same ▸ found, copy⟩
  · rw [if_neg same] at held
    exact ⟨left, held, rfl⟩

theorem on_status_data_keeps (other : Nat) (data : Bytes) (machine : Machine Body) :
    Keeps sid machine (onStatusData other data machine) := by
  unfold onStatusData
  cases found : machine.pending.get? other with
  | none => exact .same rfl
  | some pending =>
      cases status : pending.status with
      | none =>
          simp only [status]
          exact .same rfl
      | some info =>
          simp only [status]
          split_ifs
          · exact (Keeps.release machine other).trans (.same rfl)
          · exact (Keeps.update found (by rfl)).trans (.same rfl)

theorem StreamMove.keeps {header : ResponseHeader} {body : Bytes} {pending : Pending}
    {framer left : Framer} (found : first.pending.get? header.streamid = some pending)
    (move : StreamMove first header body pending framer second left) : Keeps sid first second := by
  cases move with
  | raised | redirected | waiting => exact .same rfl
  | completed | failed | unexpected =>
      exact (Keeps.release first header.streamid).trans (.same rfl)
  | chunk => exact (Keeps.update found (by rfl)).trans (.same rfl)
  | collecting => exact Keeps.update found (by rfl)
  | settled => exact (Keeps.update found (by rfl)).trans (on_status_data_keeps _ _ _)

theorem SubmitMove.keeps {request : Request} {path : Text} {arriveOnPath : Bool}
    {issued : Option Nat} (ids : Ids first) (held : first.inFlight sid)
    (move : SubmitMove request path arriveOnPath first issued second) : Keeps sid first second := by
  cases move with
  | refused | exhausted | raised => exact .same rfl
  | issued ready acquired made =>
      obtain ⟨-, unheld, -⟩ := ids.acquired acquired
      apply Keeps.fewer
      right
      rw [(enqueue_table ..).2]
      apply Dict.get_set_other
      rintro rfl
      exact unheld held

theorem forget_path_keeps (pathid : Nat) (machine : Machine Body) :
    Keeps sid machine (forgetPath pathid machine) := by
  apply Keeps.fewer
  rw [forget_path_pending]
  by_cases listed : sid ∈ (streamsOn pathid machine).map Prod.fst
  · left
    rw [if_pos listed]
  · right
    rw [if_neg listed]

theorem eof_keeps (pathid : Nat) (machine : Machine Body) : Keeps sid machine (eof pathid machine) := by
  unfold eof
  dsimp only
  split_ifs
  · unfold onEof
    split_ifs
    · exact .same rfl
    · exact .fewer (.inl rfl)
  · have gone : Keeps sid machine (forgetPath pathid { machine with
        framers := machine.framers.setDefault pathid {}
        events := machine.events ++ (streamsOn pathid machine).map fun entry =>
          .failed (some entry.1) (some entry.2.request) (.connectionError
            (str "data path " ++ Text.ofNat pathid ++ str " closed by peer")) }) := by
      refine Keeps.trans ?_ (forget_path_keeps pathid _)
      exact .same rfl
    exact gone.trans (.same rfl)

variable [Exchange Body] {installation : Installation Body}

theorem TurnMove.keeps {pathid : Nat} (move : TurnMove installation pathid first second) :
    Keeps sid first second := by
  cases move with
  | refused | waited | orphan | garbled | notice | unknown => exact .same rfl
  | trailer other data framer =>
      have opened : Keeps sid first (storeFramer pathid framer first) := .same rfl
      exact opened.trans (on_status_data_keeps other data _)
  | bringup outer inner whole body framer cut opened waiting ran move =>
      apply Keeps.same
      rw [move.frame]
      rfl
  | stream outer inner whole body framer left pending cut opened running found move =>
      have stored : (storeFramer pathid framer first).pending.get? inner.streamid =
          some pending := found
      have opened : Keeps sid first (storeFramer pathid framer first) := .same rfl
      exact (opened.trans (move.keeps stored)).trans (.same rfl)

theorem step_keeps {machine : Machine Body} (ids : Ids machine) (held : machine.inFlight sid)
    (move : Move) : Keeps sid machine (step installation move machine) := by
  have moved := step_move installation move machine
  generalize step installation move machine = left at moved
  cases moved with
  | start moved =>
      cases moved with
      | refused | greeted => exact .same rfl
  | submit moved => exact moved.keeps ids held
  | resume moved =>
      cases moved with
      | refused => exact .same rfl
      | resent pending found =>
          split_ifs
          · exact .same rfl
          · exact .same rfl
  | close moved =>
      cases moved with
      | exhausted | raised | farewell | silent => exact .same rfl
  | tlsEstablished moved =>
      cases moved with
      | refused => exact .same rfl
      | secured due move =>
          apply Keeps.same
          rw [move.frame]
  | turn moved => exact moved.keeps
  | release streamid => exact Keeps.release machine streamid
  | eof pathid => exact eof_keeps pathid machine
  | forgetPath pathid => exact forget_path_keeps pathid machine
  | feed | dataToSend | pathDataToSend | nextEvent => exact .same rfl

theorem run_keeps {moves : List Move} {machine : Machine Body} {pending : Pending}
    (ids : Ids machine) (found : machine.pending.get? sid = some pending)
    (stays : ∀ entry ∈ history (step installation) moves machine, entry.after.inFlight sid) :
    ∃ left, (run (step installation) moves machine).pending.get? sid = some left ∧
      outline left = outline pending := by
  induction moves generalizing machine pending with
  | nil => exact ⟨pending, found, rfl⟩
  | cons move rest induction =>
      have there : (step installation move machine).inFlight sid :=
        stays ⟨machine, move, step installation move machine⟩ (by simp [history])
      obtain ⟨middle, kept⟩ := (Dict.mem_keys _ _).mp there
      obtain ⟨known, same, unchanged⟩ :=
        step_keeps ids (Dict.mem_keys_of_get found) move middle kept
      rw [found] at same
      cases same
      obtain ⟨left, held, equal⟩ := induction (step_ids ids move) kept
        (fun entry member => stays entry (by simp [history, member]))
      exact ⟨left, held, equal.trans unchanged⟩

end Keeps

theorem Sealed.ne_nil {before : Machine Body} {request : Request} {sid : Nat} {frame : Bytes}
    {signer : Option Signer} (made : Sealed before request sid frame signer) : frame ≠ [] := by
  have written : ∀ {plain : Bytes}, encode request sid = .ok plain → plain ≠ [] := by
    intro plain encoded
    obtain ⟨params, body, -, sixteen, -, -, -, rfl⟩ := encode_ok encoded
    intro empty
    have size := congrArg List.length empty
    simp [sixteen] at size
  cases made with
  | plain frame encoded => exact written encoded
  | signed signer plain mac signature encoded held signed =>
      intro empty
      exact written encoded (List.append_eq_nil_iff.mp empty).2

theorem submit_ok {machine submitted : Machine Body} {request : Request} {path : Text}
    {arriveOnPath : Bool} {sid : Nat}
    (issued : submit request path arriveOnPath machine = .ok sid submitted) :
    ∃ free next frame signer, Acquired machine sid free next ∧
      Sealed machine request sid frame signer ∧
      submitted = enqueue request sid path arriveOnPath frame
        { machine with free := free, nextSid := next, signer := signer } := by
  have moved := submit_move request path arriveOnPath machine
  simp only [issued, returned, final_ok] at moved
  cases moved with
  | issued ready acquired made => exact ⟨_, _, _, _, acquired, made, rfl⟩

section Resend

variable [Exchange Body] (installation : Installation Body)

/-- `resume` appends to each link what `submit` appended to it, and to no other. -/
def Repeats (before submitted met resumed : Machine Body) : Prop :=
  ∀ box, ∃ bytes, submitted.queuedOn box = before.queuedOn box ++ bytes ∧
    resumed.queuedOn box = met.queuedOn box ++ bytes

/-- For every run that leaves a submitted request in flight, whatever else it queues:
the request is sent again where it went exactly if it did not go down its data path as
a whole. -/
theorem resend_repeats_iff (host : Text) (port : Nat) (config : Config)
    (credentials : Option (List (Credential Body))) (username : Text) (wantTls : Bool)
    (bindTo : Bytes) (earlier between : List Call) (request : Request) (path : Text)
    (arriveOnPath : Bool) (sid : Nat) (submitted : Machine Body)
    (issued : submit request path arriveOnPath (after installation earlier
      (new host port config credentials username wantTls bindTo)) = .ok sid submitted)
    (stays : ∀ entry ∈ traced installation between submitted, entry.after.inFlight sid) :
    ∃ resumed, resume sid (after installation between submitted) = .ok () resumed ∧
      (Repeats (after installation earlier
        (new host port config credentials username wantTls bindTo)) submitted
        (after installation between submitted) resumed ↔
        ¬(arriveOnPath = true ∧ request.pathid ≠ 0)) := by
  generalize reached : after installation earlier
    (new host port config credentials username wantTls bindTo) = machine at issued ⊢
  have ids : Ids machine := by
    rw [← reached]
    exact Visits.invariant installation Ids (fun machine move held => step_ids held move)
      (new_ids host port config credentials username wantTls bindTo) (.inl rfl)
  have kept : Ids submitted := by
    have moved := submit_move request path arriveOnPath machine
    simp only [issued, final_ok] at moved
    exact moved.ids ids
  obtain ⟨free, next, frame, signer, acquired, made, shape⟩ := submit_ok issued
  have found : submitted.pending.get? sid = some (pendingOf request path frame) := by
    rw [shape, (enqueue_table ..).2, Dict.get_set_self]
  obtain ⟨left, held, copy⟩ := run_keeps kept found stays
  rw [run_moves_of] at held
  obtain ⟨resumed, done, queued⟩ := resume_queued held
  refine ⟨resumed, done, ?_⟩
  simp only [outline, pendingOf, Prod.mk.injEq] at copy
  obtain ⟨sameFrame, samePath, sameData⟩ := copy
  have sent : ∀ box, submitted.queuedOn box =
      machine.queuedOn box ++ routed request arriveOnPath frame box := by
    intro box
    rw [shape, enqueue_queued]
    cases box <;> rfl
  have equal : Repeats machine submitted (after installation between submitted) resumed ↔
      ∀ box, routed request arriveOnPath frame box = copied left box := by
    constructor
    · intro repeats box
      obtain ⟨bytes, one, two⟩ := repeats box
      rw [sent] at one
      rw [queued] at two
      rw [List.append_cancel_left one, List.append_cancel_left two]
    · intro same box
      refine ⟨routed request arriveOnPath frame box, sent box, ?_⟩
      rw [queued, same]
  rw [equal]
  constructor
  · rintro same ⟨arrives, named⟩
    have control := same .control
    simp only [routed, copied, arrives, named, sameFrame, ne_eq, not_false_eq_true, decide_true,
      Bool.and_true, if_true] at control
    exact made.ne_nil control.symm
  · intro apart box
    have split : (arriveOnPath && decide (request.pathid ≠ 0)) = false := by
      simpa using apart
    cases box with
    | control => simp only [routed, copied, split, sameFrame, Bool.false_eq_true, if_false]
    | path pathid =>
        simp only [routed, copied, split, samePath, sameData, Bool.false_eq_true, if_false]

end Resend

def broughtUp : List Call :=
  [.start, .receiveData (greets 1 [] ++ admits []) 0, .dataToSend]

def spread : Request := Request.Write [0, 0, 0, 0] 0 [1, 2] 1

theorem returned_ok {Value : Type} {result : EStateM.Result Exception (Machine Body) Value}
    {value : Value} (given : returned result = some value) : result = .ok value (final result) := by
  cases result with
  | ok value machine =>
      cases given
      rfl
  | error error machine => cases given

/-- A write split over two links is sent again over both, with another request
queued in between. -/
theorem spread_write_resent :
    let machine : Machine OneShot := new (str "data") DEFAULT_PORT {} none [] false []
    let before := after (Installation.bare OneShot) broughtUp machine
    let submitted := final (submit spread [] false before)
    let met := after (Installation.bare OneShot) [.submit Request.Ping [] false] submitted
    ∃ resumed, resume 4 met = .ok () resumed ∧ Repeats before submitted met resumed := by
  intro machine before submitted met
  have issued : submit spread [] false before = .ok 4 submitted :=
    returned_ok (by decide +kernel)
  have stays : (traced (Installation.bare OneShot) [.submit Request.Ping [] false] submitted).all
      (fun entry => 4 ∈ entry.after.pending.keys) = true := by decide +kernel
  have flies : ∀ entry ∈ traced (Installation.bare OneShot) [.submit Request.Ping [] false]
      submitted, entry.after.inFlight 4 := by
    intro entry member
    exact of_decide_eq_true (p := 4 ∈ entry.after.pending.keys)
      (List.all_eq_true.mp stays entry member)
  obtain ⟨resumed, done, repeats⟩ := resend_repeats_iff (Installation.bare OneShot) (str "data")
    DEFAULT_PORT {} none [] false [] broughtUp [.submit Request.Ping [] false] spread [] false 4
    submitted issued flies
  exact ⟨resumed, done, repeats.mpr (by simp)⟩

/-- A request that went down its data path as a whole is sent again on the control
link, where nothing of it had been. -/
theorem arrived_write_resent_on_control :
    let machine : Machine OneShot := new (str "data") DEFAULT_PORT {} none [] false []
    let before := after (Installation.bare OneShot) broughtUp machine
    let submitted := final (submit spread [] true before)
    let resumed := final (resume 4 submitted)
    returned (submit spread [] true before) = some 4 ∧
      submitted.queuedOn .control = before.queuedOn .control ∧
      resumed.queuedOn .control = submitted.queuedOn .control ++
        (encode spread 4).toOption.getD [] ∧
      ¬Repeats before submitted submitted resumed := by
  intro machine before submitted resumed
  refine ⟨by decide +kernel, by decide +kernel, by decide +kernel, ?_⟩
  intro repeats
  obtain ⟨bytes, one, two⟩ := repeats .control
  have silent : submitted.queuedOn .control = [] := by decide +kernel
  have empty : before.queuedOn .control = [] := by decide +kernel
  have noisy : resumed.queuedOn .control ≠ [] := by decide +kernel
  rw [silent, empty, List.nil_append] at one
  rw [silent, List.nil_append, ← one] at two
  exact noisy two

end Machine

end XRootDClient.Proto

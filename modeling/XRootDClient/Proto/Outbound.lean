import XRootDClient.Proto.Moves

/-!
# What a call on the outbound side can do

`submit`, `resume`, `close`, `start` and `tls_established`, each reduced to the
list of machines it can leave behind. A call that raises may already have taken
a stream id or moved the signature counter; the moves say which.
-/

set_option autoImplicit false

namespace XRootDClient.Proto.Machine

open Lib Lib.BigEndian Lib.Stateful Auth Crypto

variable {Body : Type}

def nextAfter (sid : Nat) : Nat := if sid + 1 > 0xFFFF then firstSid else sid + 1

/-- The id a machine gives out, with the free list and the counter it leaves. -/
inductive Acquired (before : Machine Body) : Nat → List Nat → Nat → Prop
  | recycled (sid : Nat) (rest : List Nat) (head : before.free = sid :: rest) :
      Acquired before sid rest before.nextSid
  | fresh (spent : before.free = []) (absent : before.pending.get? before.nextSid = none) :
      Acquired before before.nextSid [] (nextAfter before.nextSid)

theorem acquire_sid_cases (machine : Machine Body) :
    (∃ sid free next, Acquired machine sid free next ∧
      acquireSid machine = .ok sid { machine with free := free, nextSid := next }) ∨
    ∃ error, machine.free = [] ∧
      acquireSid machine = .error error
        { machine with nextSid := nextAfter machine.nextSid } := by
  unfold acquireSid
  simp only [run_bind, run_get]
  cases shape : machine.free with
  | cons sid rest =>
      refine .inl ⟨sid, rest, machine.nextSid, .recycled sid rest shape, ?_⟩
      simp only [run_bind, run_set, run_pure]
  | nil =>
      simp only [run_bind, run_set]
      by_cases taken : machine.pending.contains machine.nextSid = true
      · rw [if_pos taken]
        exact .inr ⟨_, trivial, rfl⟩
      · rw [if_neg taken]
        have absent : machine.pending.get? machine.nextSid = none := by
          simpa [Dict.contains] using taken
        refine .inl ⟨machine.nextSid, [], _, .fresh shape absent, ?_⟩
        simp only [run_pure, nextAfter]

/-- The frame of a request as it is queued, and the signer as it is left. -/
inductive Sealed (before : Machine Body) (request : Request) (sid : Nat) :
    Bytes → Option Signer → Prop
  | plain (frame : Bytes) (encoded : encode request sid = .ok frame) :
      Sealed before request sid frame before.signer
  | signed (signer : Signer) (plain mac signature : Bytes)
      (encoded : encode request sid = .ok plain) (held : before.signer = some signer)
      (written : encode (Request.Sigver request.opcode (signer.seqno + 1) mac) sid =
        .ok signature) :
      Sealed before request sid (signature ++ plain)
        (some { signer with seqno := signer.seqno + 1 })

/-- A signer that may have counted a signature nobody sent. -/
def Counted (before after : Option Signer) : Prop :=
  after = before ∨
    ∃ signer, before = some signer ∧ after = some { signer with seqno := signer.seqno + 1 }

theorem sign_cases (signer : Signer) (frame : Bytes) :
    signer.sign frame = (.ok none, signer) ∨
    (∃ error, signer.sign frame = (.error error, { signer with seqno := signer.seqno + 1 })) ∨
    ∃ mac, signer.sign frame =
      (.ok (some (signer.seqno + 1, mac)), { signer with seqno := signer.seqno + 1 }) := by
  unfold Signer.sign
  by_cases needed : signer.required (Signer.frameOpcode frame) = true
  · rw [if_pos needed]
    refine .inr ?_
    dsimp only
    cases Writer.u64 (signer.seqno + 1) with
    | error error => exact .inl ⟨error, rfl⟩
    | ok packed => exact .inr ⟨_, rfl⟩
  · rw [if_neg needed]
    exact .inl rfl

theorem sealed_cases (request : Request) (sid : Nat) (plain : Bytes) (machine : Machine Body)
    (encoded : encode request sid = .ok plain) :
    (∃ frame signer, Sealed machine request sid frame signer ∧
      sealed request sid plain machine = .ok frame { machine with signer := signer }) ∨
    ∃ error signer, Counted machine.signer signer ∧
      sealed request sid plain machine = .error error { machine with signer := signer } := by
  unfold sealed
  simp only [run_bind, run_get]
  cases held : machine.signer with
  | none =>
      refine .inl ⟨plain, none, ?_, ?_⟩
      · rw [← held]
        exact .plain plain encoded
      · simp only [run_pure, ← held]
  | some signer =>
      rcases sign_cases signer plain with none | ⟨error, refused⟩ | ⟨mac, signed⟩
      · refine .inl ⟨plain, some signer, ?_, ?_⟩
        · rw [← held]
          exact .plain plain encoded
        · simp only [none, run_bind, run_modify, attempt_ok, run_pure]
      · refine .inr ⟨error, _, .inr ⟨signer, rfl, rfl⟩, ?_⟩
        simp only [refused, run_bind, run_modify, attempt_error]
      · simp only [signed, run_bind, run_modify, attempt_ok]
        cases written : encode (Request.Sigver request.opcode (signer.seqno + 1) mac) sid with
        | error error => exact .inr ⟨error, _, .inr ⟨signer, rfl, rfl⟩, rfl⟩
        | ok signature =>
            exact .inl ⟨_, _, .signed signer plain mac signature encoded held written, rfl⟩

def pendingOf (request : Request) (path : Text) (frame : Bytes) : Pending :=
  { request := request, frame := frame, path := path, pathid := request.pathid
    pathBytes := request.pathData }

def enqueue (request : Request) (sid : Nat) (path : Text) (arriveOnPath : Bool) (frame : Bytes)
    (machine : Machine Body) : Machine Body :=
  let held := { machine with
    pending := machine.pending.set sid (pendingOf request path frame) }
  if arriveOnPath && request.pathid ≠ 0 then
    queuePath request.pathid (frame ++ request.pathData) held
  else
    let sent := { held with out := held.out ++ frame }
    if request.pathData ≠ [] then queuePath request.pathid request.pathData sent else sent

theorem send_run (request : Request) (sid : Nat) (path : Text) (arriveOnPath : Bool)
    (machine : Machine Body) :
    send request sid path arriveOnPath machine = match encode request sid with
      | .error error => .error error machine
      | .ok plain =>
          match sealed request sid plain machine with
          | .error error machine => .error error machine
          | .ok frame machine => .ok () (enqueue request sid path arriveOnPath frame machine) := by
  unfold send
  rw [run_bind]
  cases encoded : encode request sid with
  | error error => rfl
  | ok plain =>
      simp only [attempt_ok]
      rw [run_bind]
      cases sealed request sid plain machine with
      | error error left => rfl
      | ok frame left =>
          simp only [run_bind, run_modify, enqueue, pendingOf]
          split_ifs <;> rfl

/-- What `submit` can do, and the stream id it returns. -/
inductive SubmitMove (request : Request) (path : Text) (arriveOnPath : Bool)
    (before : Machine Body) : Option Nat → Machine Body → Prop
  | refused (unready : before.state ≠ .READY) :
      SubmitMove request path arriveOnPath before none before
  | exhausted (spent : before.free = []) :
      SubmitMove request path arriveOnPath before none
        { before with nextSid := nextAfter before.nextSid }
  | raised {sid : Nat} {free : List Nat} {next : Nat} {signer : Option Signer}
      (acquired : Acquired before sid free next) (counted : Counted before.signer signer) :
      SubmitMove request path arriveOnPath before none
        { before with free := free, nextSid := next, signer := signer }
  | issued {sid : Nat} {free : List Nat} {next : Nat} {frame : Bytes} {signer : Option Signer}
      (ready : before.state = .READY) (acquired : Acquired before sid free next)
      (made : Sealed before request sid frame signer) :
      SubmitMove request path arriveOnPath before (some sid)
        (enqueue request sid path arriveOnPath frame
          { before with free := free, nextSid := next, signer := signer })

def returned {Value : Type} :
    EStateM.Result Exception (Machine Body) Value → Option Value
  | .ok value _ => some value
  | .error _ _ => none

theorem submit_move (request : Request) (path : Text) (arriveOnPath : Bool)
    (machine : Machine Body) :
    let result := submit request path arriveOnPath machine
    SubmitMove request path arriveOnPath machine (returned result) (final result) := by
  simp only [submit, run_bind, run_get]
  by_cases unready : machine.state ≠ .READY
  · rw [if_pos unready]
    exact .refused unready
  rw [if_neg unready]
  have ready : machine.state = .READY := not_not.mp unready
  rw [run_bind]
  rcases acquire_sid_cases machine with ⟨sid, free, next, acquired, ran⟩ | ⟨error, spent, ran⟩
  · simp only [ran, run_bind, send_run]
    cases encoded : encode request sid with
    | error error =>
        have counted : Counted machine.signer machine.signer := .inl rfl
        exact .raised acquired counted
    | ok plain =>
        rcases sealed_cases request sid plain { machine with free := free, nextSid := next }
          encoded with ⟨frame, signer, made, done⟩ | ⟨error, signer, counted, done⟩
        · simp only [done]
          refine .issued ready acquired ?_
          cases made with
          | plain frame encoded => exact .plain frame encoded
          | signed signer plain mac signature encoded held written =>
              exact .signed signer plain mac signature encoded held written
        · simp only [done]
          exact .raised acquired counted
  · simp only [ran]
    exact .exhausted spent

inductive ResumeMove (streamid : Nat) (before : Machine Body) : Machine Body → Prop
  | refused (absent : before.pending.get? streamid = none) : ResumeMove streamid before before
  | resent (pending : Pending) (found : before.pending.get? streamid = some pending) :
      ResumeMove streamid before
        (if pending.pathBytes ≠ [] then
          queuePath pending.pathid pending.pathBytes
            { before with out := before.out ++ pending.frame }
        else { before with out := before.out ++ pending.frame })

theorem resume_move (streamid : Nat) (machine : Machine Body) :
    ResumeMove streamid machine (final (resume streamid machine)) := by
  simp only [resume, run_bind, run_get]
  cases found : machine.pending.get? streamid with
  | none => exact .refused found
  | some pending =>
      have move := ResumeMove.resent pending found
      simp only [run_bind, run_modify]
      split_ifs with data
      · rw [if_pos data] at move
        exact move
      · rw [if_neg data] at move
        exact move

/-- What `close` can do; only the id or the frame of its farewell can raise. -/
inductive CloseMove (before : Machine Body) : Machine Body → Prop
  | exhausted (spent : before.free = []) :
      CloseMove before { before with nextSid := nextAfter before.nextSid }
  | raised {sid : Nat} {free : List Nat} {next : Nat} (acquired : Acquired before sid free next) :
      CloseMove before { before with free := free, nextSid := next }
  | farewell {sid : Nat} {free : List Nat} {next : Nat} {frame : Bytes}
      (ready : before.state = .READY) (acquired : Acquired before sid free next)
      (encoded : encode (Request.EndSession before.sessionId) sid = .ok frame) :
      CloseMove before (emit (.disconnected (str "closed by client"))
        { before with
          state := .CLOSED, out := before.out ++ frame, free := free, nextSid := next })
  | silent :
      CloseMove before (emit (.disconnected (str "closed by client"))
        { before with state := .CLOSED })

theorem close_move (graceful : Bool) (machine : Machine Body) :
    CloseMove machine (final (close graceful machine)) := by
  simp only [close, run_bind, run_get]
  split_ifs with polite
  · simp only [run_bind]
    rcases acquire_sid_cases machine with ⟨sid, free, next, acquired, ran⟩ | ⟨error, spent, ran⟩
    · simp only [ran, queue_run]
      cases encoded : encode (Request.EndSession machine.sessionId) sid with
      | error error => exact .raised acquired
      | ok frame => exact .farewell polite.1 acquired encoded
    · simp only [ran]
      exact .exhausted spent
  · exact .silent

def announced (wantTls : Bool) : Request :=
  Request.Protocol (kXR_secreqs ||| kXR_ableTLS ||| (if wantTls then kXR_wantTLS else 0))

/-- The bytes `start` queues: the handshake, pipelined with `kXR_protocol`. -/
def greeting (wantTls : Bool) : Bytes :=
  HANDSHAKE ++ ((encode (announced wantTls) sidProtocol).toOption.getD [])

theorem announced_encodes (wantTls : Bool) :
    ∃ frame, encode (announced wantTls) sidProtocol = .ok frame := by
  cases wantTls
  · exact ⟨_, rfl⟩
  · exact ⟨_, rfl⟩

inductive StartMove (before : Machine Body) : Machine Body → Prop
  | refused (started : before.state ≠ .NEW) : StartMove before before
  | greeted (fresh : before.state = .NEW) :
      StartMove before
        { before with state := .HANDSHAKE, out := before.out ++ greeting before.wantTls }

theorem start_move (machine : Machine Body) : StartMove machine (final (start machine)) := by
  simp only [start, run_bind, run_get]
  by_cases started : machine.state ≠ .NEW
  · rw [if_pos started]
    exact .refused started
  rw [if_neg started]
  obtain ⟨frame, encoded⟩ := announced_encodes machine.wantTls
  have move := StartMove.greeted (not_not.mp started)
  rw [greeting, encoded] at move
  rw [announced] at encoded
  simp only [run_bind, run_set, queue_run, encoded, run_modify, final_ok,
    List.append_assoc]
  exact move

inductive TlsMove (installation : Installation Body) (before : Machine Body) :
    Machine Body → Prop
  | refused (early : before.state ≠ .TLS) : TlsMove installation before before
  | secured {after : Machine Body} (due : before.state = .TLS)
      (move : LoginMove installation { before with tlsActive := true } after) :
      TlsMove installation before after

theorem tls_established_move (installation : Installation Body) (machine : Machine Body) :
    TlsMove installation machine (final (tlsEstablished installation machine)) := by
  simp only [tlsEstablished, run_bind, run_get]
  by_cases early : machine.state ≠ .TLS
  · rw [if_pos early]
    exact .refused early
  · rw [if_neg early]
    rw [run_bind, run_set]
    exact .secured (not_not.mp early) (begin_login_move installation _)

end XRootDClient.Proto.Machine

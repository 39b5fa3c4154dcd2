import XRootDClient.Lib.Stateful
import XRootDClient.Proto.Machine

/-!
# What the machine can do in one move

The computations of the machine, run once and for all: bring-up is reduced to a
list of moves (`BringupMove`), a response to a stream in flight to another
(`StreamMove`), and one turn of the inbound loop to those two between two
updates of a framer. Every invariant is checked against these moves and never
against the program text.
-/

set_option autoImplicit false

namespace XRootDClient.Proto.Machine

open Lib Lib.BigEndian Lib.Stateful Auth Crypto

variable {Body : Type}

@[simp] theorem attempt_ok {Value : Type} (value : Value) (machine : Machine Body) :
    attempt (.ok value) machine = .ok value machine := rfl

@[simp] theorem attempt_error {Value : Type} (error : Exception) (machine : Machine Body) :
    (attempt (.error error) : Act Body Value) machine = .error error machine := rfl

theorem queue_run (request : Request) (sid : Nat) (machine : Machine Body) :
    queue request sid machine = match encode request sid with
      | .ok frame => .ok () { machine with out := machine.out ++ frame }
      | .error error => .error error machine := by
  cases encoded : encode request sid <;> simp [queue, encoded]

/-- Where the ladder can leave the machine: a blob sent, nothing left to try, or
an exception on the way. -/
inductive LadderMove (before : Machine Body) : Machine Body → Prop
  | sent {credentials : Option (Ladder Body)} {credential : Option (Credential Body)}
      {mechanism : Text} {authRejected : Dict Text Text} {name : Text} {blob : Bytes}
      {request : Request} {frame : Bytes} (made : Request.Auth name blob = .ok request)
      (encoded : encode request sidAuth = .ok frame) :
      LadderMove before { before with
        credentials := credentials, credential := credential, mechanism := mechanism
        authRejected := authRejected, out := before.out ++ frame }
  | exhausted {credentials : Option (Ladder Body)} {credential : Option (Credential Body)}
      {mechanism : Text} {authRejected : Dict Text Text} :
      LadderMove before (noMechanism { before with
        credentials := credentials, credential := credential, mechanism := mechanism
        authRejected := authRejected })
  | raised {credentials : Option (Ladder Body)} {credential : Option (Credential Body)}
      {mechanism : Text} {authRejected : Dict Text Text} :
      LadderMove before { before with
        credentials := credentials, credential := credential, mechanism := mechanism
        authRejected := authRejected }

/-- A move from a machine that differs only in the ladder's own fields is a move
from the machine itself. -/
theorem LadderMove.reframe {before after : Machine Body} {credentials : Option (Ladder Body)}
    {credential : Option (Credential Body)} {mechanism : Text} {authRejected : Dict Text Text}
    (move : LadderMove { before with
      credentials := credentials, credential := credential, mechanism := mechanism
      authRejected := authRejected } after) : LadderMove before after := by
  cases move with
  | sent made encoded => exact .sent made encoded
  | exhausted => exact .exhausted
  | raised => exact .raised

theorem queue_auth_move (name : Text) (blob : Bytes) (machine : Machine Body) :
    LadderMove machine (final (queueAuth name blob machine)) := by
  unfold queueAuth
  cases made : Request.Auth name blob with
  | error error => exact .raised
  | ok request =>
      rw [run_bind, attempt_ok]
      dsimp only
      rw [queue_run]
      cases encoded : encode request sidAuth with
      | error error => exact .raised
      | ok frame => exact .sent made encoded

section BringUp

variable [Exchange Body] (installation : Installation Body)

theorem climb_move (rungs : List (Rung Body)) (machine : Machine Body) :
    LadderMove machine (final (climb installation rungs machine)) := by
  induction rungs generalizing machine with
  | nil => exact .exhausted
  | cons rung rest induction =>
      simp only [climb, run_bind, run_get, run_set]
      generalize machine.credentials.getD { rungs := [] } = ladder
      rcases ladder.reach installation rung machine.authRejected with ⟨outcome, why⟩
      cases outcome with
      | error error => exact .raised
      | ok yielded =>
          simp only [attempt_ok]
          cases yielded with
          | none => exact (induction _).reframe
          | some credential =>
              cases minted : (Exchange.initial credential.body).1 with
              | error error =>
                  simp only [minted, run_bind, run_modify]
                  split
                  · exact .exhausted
                  · exact (induction _).reframe
              | ok blob =>
                  simp only [minted, run_bind, run_modify]
                  exact (queue_auth_move credential.name blob _).reframe

theorem next_credential_move (sec : Text) (machine : Machine Body) :
    LadderMove machine (final (nextCredential installation sec machine)) := by
  simp only [nextCredential, run_bind, run_modify, run_get]
  exact (climb_move installation _ _).reframe

/-- A login or a bind request goes out, or the exception of writing one. -/
inductive LoginMove (before : Machine Body) : Machine Body → Prop
  | binding {frame : Bytes} (wanted : before.bindTo ≠ [])
      (encoded : encode (Request.Bind before.bindTo) sidBind = .ok frame) :
      LoginMove before { before with state := .BIND, out := before.out ++ frame }
  | logging {frame : Bytes} (wanted : before.bindTo = [])
      (encoded : encode (Request.Login before.username installation.pid) sidLogin = .ok frame) :
      LoginMove before { before with state := .LOGIN, out := before.out ++ frame }
  | unbound {error : Exception} (wanted : before.bindTo ≠ [])
      (refused : encode (Request.Bind before.bindTo) sidBind = .error error) :
      LoginMove before { before with state := .BIND }
  | unlogged {error : Exception} (wanted : before.bindTo = [])
      (refused : encode (Request.Login before.username installation.pid) sidLogin =
        .error error) :
      LoginMove before { before with state := .LOGIN }

omit [Exchange Body] in
private theorem logging_move (machine : Machine Body) (request : Request) (sid : Nat)
    (state : State)
    (raised : ∀ error, encode request sid = .error error → LoginMove installation machine
      { machine with state := state })
    (sent : ∀ frame, encode request sid = .ok frame → LoginMove installation machine
      { machine with state := state, out := machine.out ++ frame }) :
    LoginMove installation machine
      (final (queue request sid { machine with state := state })) := by
  rw [queue_run]
  cases encoded : encode request sid with
  | error error => exact raised error encoded
  | ok frame => exact sent frame encoded

omit [Exchange Body] in
theorem begin_login_move (machine : Machine Body) :
    LoginMove installation machine (final (beginLogin installation machine)) := by
  simp only [beginLogin, run_bind, run_get]
  split
  · next wanted =>
      exact logging_move installation machine _ _ .BIND (fun error => .unbound wanted)
        fun frame => .binding wanted
  · next wanted =>
      exact logging_move installation machine _ _ .LOGIN
        (fun error => .unlogged (not_not.mp wanted)) fun frame => .logging (not_not.mp wanted)

/-- Whether the connection must be encrypted before anybody logs in on it. -/
def tlsDue (machine : Machine Body) : Bool :=
  machine.wantTls || demandsTls machine.protocolInfo.flags

def negotiate (info : ProtocolInfo) (machine : Machine Body) : Machine Body :=
  emit (.negotiated info) { machine with protocolInfo := info }

def admitted (status : Nat) : Prop := status = kXR_ok ∨ status = kXR_authmore

/-- What one response can do to a machine that is being brought up. -/
inductive BringupMove (before : Machine Body) (header : ResponseHeader) (body : Bytes) :
    Machine Body → Prop
  | raised : BringupMove before header body before
  | failed (error : Exception) : BringupMove before header body (fail error before)
  | shook (was : before.state = .HANDSHAKE) (accepted : admitted header.status) :
      BringupMove before header body { before with state := .PROTOCOL }
  | refused (info : ProtocolInfo) (error : Exception) (was : before.state = .PROTOCOL)
      (accepted : admitted header.status) (parsed : parseProtocol body = .ok info)
      (due : tlsDue (negotiate info before) = true) (lacking : hasTls info.flags = false) :
      BringupMove before header body (fail error (negotiate info before))
  | upgrade (info : ProtocolInfo) (reason : Text) (was : before.state = .PROTOCOL)
      (accepted : admitted header.status) (parsed : parseProtocol body = .ok info)
      (due : tlsDue (negotiate info before) = true) (has : hasTls info.flags = true) :
      BringupMove before header body
        (emit (.needTls reason) { negotiate info before with state := .TLS })
  | login {after : Machine Body} (info : ProtocolInfo) (was : before.state = .PROTOCOL)
      (accepted : admitted header.status) (parsed : parseProtocol body = .ok info)
      (clear : tlsDue (negotiate info before) = false)
      (move : LoginMove installation (negotiate info before) after) :
      BringupMove before header body after
  | bound (pathid : Nat) (was : before.state = .BIND) (accepted : admitted header.status)
      (parsed : parseBind body = .ok pathid) :
      BringupMove before header body (becomeReady { before with pathid := pathid })
  | entered (login : LoginInfo) (was : before.state = .LOGIN) (accepted : admitted header.status)
      (parsed : parseLogin body = .ok login) (done : login.sec = []) :
      BringupMove before header body
        (becomeReady { before with sessionId := login.sessid, offered := login.mechanisms })
  | challenged {after : Machine Body} (login : LoginInfo) (was : before.state = .LOGIN)
      (accepted : admitted header.status) (parsed : parseLogin body = .ok login)
      (asked : login.sec ≠ []) (move : LadderMove { before with
        sessionId := login.sessid, offered := login.mechanisms, state := .AUTH } after) :
      BringupMove before header body after
  | stepped {after : Machine Body} (was : before.state = .AUTH)
      (more : header.status = kXR_authmore) (move : LadderMove before after) :
      BringupMove before header body after
  | authenticated (was : before.state = .AUTH) (accepted : header.status = kXR_ok) :
      BringupMove before header body (becomeReady before)

theorem auth_step_move (challenge : Bytes) (machine : Machine Body) :
    LadderMove machine (final (authStep installation challenge machine)) ∨
      ∃ error, final (authStep installation challenge machine) = fail error machine := by
  cases held : machine.credential with
  | none =>
      right
      simp only [authStep, run_bind, run_get, held, run_set]
      exact ⟨_, rfl⟩
  | some credential =>
      left
      simp only [authStep, run_bind, run_get, held, run_set]
      cases answered : (Exchange.step credential.body challenge).1 with
      | error error =>
          simp only [run_bind, run_modify]
          exact (next_credential_move installation [] _).reframe
      | ok answer =>
          cases answer with
          | none =>
              simp only [run_bind, run_modify]
              exact (next_credential_move installation [] _).reframe
          | some blob => exact (queue_auth_move credential.name blob _).reframe

theorem after_protocol_move (header : ResponseHeader) (body : Bytes) (info : ProtocolInfo)
    (machine : Machine Body) (was : machine.state = .PROTOCOL) (accepted : admitted header.status)
    (parsed : parseProtocol body = .ok info) :
    BringupMove installation machine header body
      (final (afterProtocol installation (negotiate info machine))) := by
  simp only [afterProtocol, run_bind, run_get]
  by_cases due : tlsDue (negotiate info machine) = true
  · have wanted := due
    rw [tlsDue] at wanted
    rw [if_pos wanted]
    cases has : hasTls info.flags with
    | false =>
        rw [if_pos (by simpa [negotiate, emit] using has)]
        exact .refused info _ was accepted parsed due has
    | true =>
        rw [if_neg (by simpa [negotiate, emit] using has)]
        exact .upgrade info _ was accepted parsed due has
  · have clear := due
    rw [tlsDue] at clear
    rw [if_neg clear]
    exact .login info was accepted parsed (by simpa using due) (begin_login_move installation _)

theorem login_move (header : ResponseHeader) (body : Bytes) (machine : Machine Body)
    (was : machine.state = .LOGIN) (admits : admitted header.status) :
    BringupMove installation machine header body (final (bringup installation header body machine)) := by
  have plain : header.status ≠ kXR_error := by
    rcases admits with ok | more <;> simp [*]
  have known : ¬(header.status ≠ kXR_ok ∧ header.status ≠ kXR_authmore) := by
    rw [not_and_or, not_not, not_not]
    exact admits
  simp only [bringup, if_neg plain, if_neg known, run_bind, run_get, was]
  cases parsed : parseLogin body with
  | error error => exact .raised
  | ok login =>
      simp only [attempt_ok, run_modify]
      by_cases done : login.sec = []
      · rw [if_pos done]
        exact .entered login was admits parsed done
      · rw [if_neg done]
        exact .challenged login was admits parsed done
          (next_credential_move installation login.sec _)

theorem bringup_move (header : ResponseHeader) (body : Bytes) (machine : Machine Body)
    (waiting : machine.state.bringingUp = true) :
    BringupMove installation machine header body (final (bringup installation header body machine)) := by
  by_cases plain : header.status = kXR_error
  · simp only [bringup, if_pos plain, run_bind]
    cases parsed : parseError body with
    | error error => exact .raised
    | ok info => exact .failed _
  by_cases strange : header.status ≠ kXR_ok ∧ header.status ≠ kXR_authmore
  · simp only [bringup, if_neg plain, if_pos strange]
    exact .failed _
  have admits : admitted header.status := by
    rw [not_and_or, not_not, not_not] at strange
    exact strange
  cases was : machine.state with
  | HANDSHAKE =>
      simp only [bringup, if_neg plain, if_neg strange, run_bind, run_get, was]
      exact .shook was admits
  | PROTOCOL =>
      simp only [bringup, if_neg plain, if_neg strange, run_bind, run_get, was]
      cases parsed : parseProtocol body with
      | error error => exact .raised
      | ok info => exact after_protocol_move installation header body info machine was admits parsed
  | BIND =>
      simp only [bringup, if_neg plain, if_neg strange, run_bind, run_get, was]
      cases parsed : parseBind body with
      | error error => exact .raised
      | ok pathid => exact .bound pathid was admits parsed
  | LOGIN => exact login_move installation header body machine was admits
  | AUTH =>
      simp only [bringup, if_neg plain, if_neg strange, run_bind, run_get, was]
      by_cases more : header.status = kXR_authmore
      · rw [if_pos more]
        rcases auth_step_move installation body machine with move | ⟨error, same⟩
        · exact .stepped was more move
        · rw [same]
          exact .failed error
      · rw [if_neg more]
        exact .authenticated was (admits.resolve_right more)
  | NEW | TLS | READY | FAILED | CLOSED => simp [was, State.bringingUp] at waiting

end BringUp

end XRootDClient.Proto.Machine

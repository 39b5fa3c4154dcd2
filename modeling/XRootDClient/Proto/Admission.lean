import XRootDClient.Auth.Discovery
import XRootDClient.Proto.Encryption

/-!
# Ready only on an acceptance

The bring-up request still to be answered is read off a run: the last frame
queued, until an answer takes it away. With mechanisms that can be presented,
every state that can become ready has the request it stands for outstanding, so
a machine that becomes ready has been told so by an answer to that request. What
remains is the answer itself: `kXR_authmore` counts as a yes everywhere but in
`AUTH`, and the runs that never meet it there are the ones that behave.
-/

set_option autoImplicit false

namespace XRootDClient.Proto

open Lib Lib.BigEndian Lib.Stateful Lib.Run Auth Crypto

theorem auth_encodes {name : Text} {blob : Bytes} (fits : Fits name)
    (short : blob.length ≤ 0x7FFFFFFF) :
    ∃ request frame, Request.Auth name blob = .ok request ∧
      encode request sidAuth = .ok frame ∧ request.opcode = kXR_auth := by
  have made : Request.Auth name blob = .ok
      { typeName := str "Auth"
        opcode := kXR_auth
        params := .ok (Writer.zeros 12 ++ Writer.padded (Text.encodeUtf8 name) 4)
        payload := .ok blob } := by
    rw [Request.Auth, if_neg (Nat.not_lt.mpr fits)]
  obtain ⟨frame, encoded⟩ := encode_writes
    { typeName := str "Auth"
      opcode := kXR_auth
      params := .ok (Writer.zeros 12 ++ Writer.padded (Text.encodeUtf8 name) 4)
      payload := .ok blob } sidAuth rfl (by simp [Writer.zeros]) rfl short
    (show kXR_auth < 0x10000 by decide)
  exact ⟨_, frame, made, encoded, rfl⟩

theorem bind_encodes (sessid : Bytes) :
    ∃ frame, encode (Request.Bind sessid) sidBind = .ok frame :=
  encode_writes (Request.Bind sessid) sidBind rfl (Writer.padded_length sessid 16) rfl
    (Nat.zero_le _) (show kXR_bind < 0x10000 by decide)

theorem login_encodes (username : Text) {pid : Nat} (small : pid < 2 ^ 31) :
    ∃ frame, encode (Request.Login username pid) sidLogin = .ok frame := by
  have fits : Writer.fits 4 (pid : Int) = true := by
    change decide (pid < 256 ^ 4 / 2) = true
    exact decide_eq_true (by omega)
  have number : Writer.i32 (pid : Int) =
      .ok (BigEndian.encode 4 (BigEndian.unsigned 4 (pid : Int))) := by
    rw [Writer.i32, Writer.signed, if_pos fits]
  have block : (Request.Login username pid).params =
      .ok (BigEndian.encode 4 (BigEndian.unsigned 4 (pid : Int)) ++
        Writer.padded (Text.encodeUtf8 username) 8 ++ Writer.zeros 2 ++
        BigEndian.encode 1 (kXR_ver005 ||| kXR_asyncap) ++ BigEndian.encode 1 0) := by
    simp only [Request.Login, number, bind, Except.bind, pure, Except.pure]
    rfl
  exact encode_writes (Request.Login username pid) sidLogin block (by simp [Writer.zeros]) rfl
    (Nat.zero_le _) (show kXR_login < 0x10000 by decide)

def State.awaits : State → List (Option Nat)
  | .HANDSHAKE => [none, some kXR_protocol]
  | .PROTOCOL => [some kXR_protocol]
  | .LOGIN => [some kXR_login]
  | .AUTH => [some kXR_auth]
  | .BIND => [some kXR_bind]
  | _ => []

def Event.isReady : Event → Bool
  | .ready _ _ => true
  | _ => false

namespace Machine

variable {Body : Type}

/-- Every rung of the ladder, if there is one yet, can be presented. -/
def LadderFits (machine : Machine Body) : Prop :=
  ∀ ladder, machine.credentials = some ladder → ∀ rung ∈ ladder.rungs, rung.Fits

/-- Where the ladder leaves the machine when every mechanism can be presented: a
`kXR_auth` sent, or nothing left to try. -/
inductive Presented (before : Machine Body) : Machine Body → Prop
  | sent {credentials : Option (Ladder Body)} {credential : Credential Body} {mechanism : Text}
      {authRejected : Dict Text Text} {request : Request} {frame : Bytes}
      (fits : ∀ ladder, credentials = some ladder → ∀ rung ∈ ladder.rungs, rung.Fits)
      (named : Fits credential.name) (encoded : encode request sidAuth = .ok frame)
      (opcode : request.opcode = kXR_auth) :
      Presented before { before with
        credentials := credentials, credential := some credential, mechanism := mechanism
        authRejected := authRejected, out := before.out ++ frame }
  | exhausted {credentials : Option (Ladder Body)} {credential : Option (Credential Body)}
      {mechanism : Text} {authRejected : Dict Text Text} :
      Presented before (noMechanism { before with
        credentials := credentials, credential := credential, mechanism := mechanism
        authRejected := authRejected })

theorem Presented.reframe {before after : Machine Body} {credentials : Option (Ladder Body)}
    {credential : Option (Credential Body)} {mechanism : Text} {authRejected : Dict Text Text}
    (presented : Presented { before with
      credentials := credentials, credential := credential, mechanism := mechanism
      authRejected := authRejected } after) : Presented before after := by
  cases presented with
  | sent fits named encoded opcode => exact .sent fits named encoded opcode
  | exhausted => exact .exhausted

theorem queue_auth_presents {name : Text} {blob : Bytes} (fits : Fits name)
    (short : blob.length ≤ 0x7FFFFFFF) (machine : Machine Body) :
    ∃ request frame, encode request sidAuth = .ok frame ∧ request.opcode = kXR_auth ∧
      queueAuth name blob machine = .ok () { machine with out := machine.out ++ frame } := by
  obtain ⟨request, frame, made, encoded, opcode⟩ := auth_encodes fits short
  refine ⟨request, frame, encoded, opcode, ?_⟩
  rw [queueAuth, run_bind, made, attempt_ok]
  dsimp only
  rw [queue_run, encoded]

theorem after_rungs (ladder : Ladder Body) (rung : Rung Body) (rest : List (Rung Body))
    (outcome : Except Exception (Option (Credential Body))) :
    ∀ left ∈ (ladder.after rung rest outcome).rungs, left ∈ rest := by
  intro left member
  unfold Ladder.after at member
  split at member
  · cases member
  · cases member
  · exact member
  · exact member

section BringUp

variable [Exchange Body] {installation : Installation Body}

theorem climb_presents (presentable : Presentable installation) (rungs : List (Rung Body))
    (fits : ∀ rung ∈ rungs, rung.Fits) (machine : Machine Body) :
    Presented machine (final (climb installation rungs machine)) := by
  induction rungs generalizing machine with
  | nil => exact .exhausted
  | cons rung rest induction =>
      have later : ∀ left ∈ rest, left.Fits := fun left member => fits left (by simp [member])
      simp only [climb, run_bind, run_get, run_set]
      generalize machine.credentials.getD { rungs := [] } = ladder
      obtain ⟨yielded, came, named⟩ := reach_presentable installation presentable ladder rung
        machine.authRejected (fits rung (by simp))
      generalize ladder.reach installation rung machine.authRejected = result at came
      obtain ⟨outcome, why⟩ := result
      dsimp only at came
      subst came
      simp only [attempt_ok]
      cases yielded with
      | none => exact (induction later _).reframe
      | some credential =>
          cases minted : (Exchange.initial credential.body).1 with
          | error error =>
              simp only [minted, run_bind, run_modify]
              split
              · exact .exhausted
              · exact (induction later _).reframe
          | ok blob =>
              simp only [minted, run_bind, run_modify]
              obtain ⟨request, frame, encoded, opcode, queued⟩ := queue_auth_presents
                (named credential rfl) (presentable.opens credential.body blob minted)
                { machine with
                  credentials := some (ladder.after rung rest (.ok (some credential)))
                  authRejected := why
                  credential := some { credential with
                    body := (Exchange.initial credential.body).2 }
                  mechanism := credential.name }
              rw [queued]
              refine .sent (fun other same left member => ?_) (named credential rfl) encoded opcode
              rw [Option.some.injEq] at same
              subst same
              exact later left (after_rungs _ _ _ _ left member)

theorem next_credential_presents (presentable : Presentable installation) (sec : Text)
    (machine : Machine Body) (fits : LadderFits machine) :
    Presented machine (final (nextCredential installation sec machine)) := by
  simp only [nextCredential, run_bind, run_modify, run_get]
  refine (climb_presents presentable _ ?_ _).reframe
  intro rung member
  simp only [Option.getD_some] at member
  cases held : machine.credentials with
  | some ladder =>
      rw [held] at member
      exact fits ladder held rung member
  | none =>
      rw [held, Option.getD_none] at member
      simp only [select, List.mem_append, List.mem_map] at member
      rcases member with ⟨name, -, rfl⟩ | ⟨name, -, rfl⟩ <;> trivial

theorem auth_step_presents (presentable : Presentable installation) (challenge : Bytes)
    (machine : Machine Body) (fits : LadderFits machine)
    (named : ∀ credential, machine.credential = some credential → Fits credential.name) :
    Presented machine (final (authStep installation challenge machine)) ∨
      ∃ error, final (authStep installation challenge machine) = fail error machine := by
  cases held : machine.credential with
  | none =>
      right
      simp only [authStep, run_bind, run_get, held, run_set]
      exact ⟨_, rfl⟩
  | some credential =>
      left
      simp only [authStep, run_bind, run_get, held, run_set]
      cases answered : (Exchange.step credential.body challenge).1 with
      | error error =>
          simp only [run_bind, run_modify]
          exact (next_credential_presents presentable [] { machine with
            credential := some { credential with
              body := (Exchange.step credential.body challenge).2 }
            authRejected := (machine.authRejected.set credential.name error.describe).setDefault
              credential.name _ } fits).reframe
      | ok answer =>
          cases answer with
          | none =>
              simp only [run_bind, run_modify]
              exact (next_credential_presents presentable [] { machine with
                credential := some { credential with
                  body := (Exchange.step credential.body challenge).2 }
                authRejected := machine.authRejected.setDefault credential.name _ } fits).reframe
          | some blob =>
              obtain ⟨request, frame, encoded, opcode, queued⟩ := queue_auth_presents
                (named credential held) (presentable.answers credential.body challenge blob answered)
                { machine with credential := some { credential with
                    body := (Exchange.step credential.body challenge).2 } }
              dsimp only
              rw [queued]
              exact .sent fits (named credential held) encoded opcode

end BringUp

/-- The requests in what bring-up queued; the handshake has no opcode. -/
def requestsIn (chunk : Bytes) : List (Option Nat) :=
  if chunk = [] then []
  else if HANDSHAKE.isPrefixOf chunk then
    [none, some (Signer.frameOpcode (chunk.drop HANDSHAKE.length))]
  else [some (Signer.frameOpcode chunk)]

/-- The response to bring-up that a move takes off a link, out of its envelope. -/
def answer (entry : Entry Move (Machine Body)) : Option (ResponseHeader × Bytes) :=
  match entry.label with
  | .turn pathid =>
      match (entry.before.framer pathid).next with
      | .frame header body _ =>
          match content header body with
          | .ok (.response inner body) =>
              if entry.before.state.bringingUp then some (inner, body) else none
          | _ => none
      | _ => none
  | _ => none

/-- The requests unanswered after a move, the oldest first. An answer that moves
bring-up on takes the oldest away; one that cannot be read takes none. -/
def outstandingAfter (current : List (Option Nat)) (entry : Entry Move (Machine Body)) :
    List (Option Nat) :=
  let asked := requestsIn (controlChunk entry)
  if (answer entry).isSome ∧ (entry.after.state ≠ entry.before.state ∨ asked ≠ []) then
    current.tail ++ asked
  else current ++ asked

def outstanding (entries : List (Entry Move (Machine Body))) : List (Option Nat) :=
  entries.foldl outstandingAfter []

theorem requests_in_greeting (wantTls : Bool) :
    requestsIn (greeting wantTls) = [none, some kXR_protocol] := by
  cases wantTls <;> decide +kernel

theorem requests_in_frame {request : Request} {sid : Nat} {frame : Bytes}
    (encoded : encode request sid = .ok frame) (named : sid % 0x10000 ≠ 0) :
    requestsIn frame = [some request.opcode] := by
  have opcode := Signer.frame_opcode encoded []
  rw [List.append_nil] at opcode
  obtain ⟨params, body, -, -, -, -, -, shape⟩ := encode_ok encoded
  have some_ : frame ≠ [] := by
    rw [shape]
    intro empty
    have length := congrArg List.length empty
    simp at length
  have plain : HANDSHAKE.isPrefixOf frame = false := by
    rw [← Bool.not_eq_true, List.isPrefixOf_iff_prefix]
    rintro ⟨rest, starts⟩
    have same : BigEndian.encode 2 0 = BigEndian.encode 2 (sid % 0x10000) := by
      have front := congrArg (List.take 2) (starts.trans shape)
      exact front.trans (List.take_left' (encode_length 2 _))
    have number := congrArg decode same
    rw [decode_encode (by decide), decode_encode (show sid % 0x10000 < 256 ^ 2 from
      Nat.mod_lt _ (by decide))] at number
    exact named number.symm
  rw [requestsIn, if_neg some_, plain, opcode]
  rfl

/-- What bring-up keeps: the request its state stands for is the one unanswered,
no stream is in flight, and the ladder can be presented. -/
structure Bringing (unanswered : List (Option Nat)) (machine : Machine Body) : Prop where
  asked : unanswered = machine.state.awaits
  idle : ∀ sid, ¬machine.inFlight sid
  ladder : LadderFits machine
  held : ∀ credential, machine.credential = some credential → Fits credential.name

def Waiting (unanswered : List (Option Nat)) (machine : Machine Body) : Prop :=
  machine.state.established = false → Bringing unanswered machine

theorem waiting_over {unanswered : List (Option Nat)} {machine : Machine Body}
    (done : machine.state.established = true) : Waiting unanswered machine := by
  intro bringing
  rw [done] at bringing
  cases bringing

theorem outstanding_quiet {current : List (Option Nat)} {entry : Entry Move (Machine Body)}
    (state : entry.after.state = entry.before.state) (silent : controlChunk entry = []) :
    outstandingAfter current entry = current := by
  simp [outstandingAfter, state, silent, requestsIn]

theorem outstanding_answered {current : List (Option Nat)} {entry : Entry Move (Machine Body)}
    (answered : (answer entry).isSome = true)
    (moved : entry.after.state ≠ entry.before.state ∨ requestsIn (controlChunk entry) ≠ []) :
    outstandingAfter current entry = current.tail ++ requestsIn (controlChunk entry) := by
  rw [outstandingAfter]
  exact if_pos ⟨answered, moved⟩

theorem outstanding_asked {current : List (Option Nat)} {entry : Entry Move (Machine Body)}
    (unanswered : answer entry = none) :
    outstandingAfter current entry = current ++ requestsIn (controlChunk entry) := by
  rw [outstandingAfter]
  exact if_neg (by simp [unanswered])

theorem Waiting.quiet {unanswered : List (Option Nat)} {before after : Machine Body} {move : Move}
    (waiting : Waiting unanswered before) (state : after.state = before.state)
    (silent : controlChunk ⟨before, move, after⟩ = [])
    (ladder : after.credentials = before.credentials)
    (held : after.credential = before.credential)
    (fewer : ∀ sid, after.inFlight sid → before.inFlight sid) :
    Waiting (outstandingAfter unanswered ⟨before, move, after⟩) after := by
  intro bringing
  rw [state] at bringing
  obtain ⟨asked, idle, fits, named⟩ := waiting bringing
  rw [outstanding_quiet state silent]
  refine ⟨by rw [state, asked], fun sid flying => idle sid (fewer sid flying), ?_, ?_⟩
  · intro known
    rw [ladder]
    exact fits known
  · intro credential
    rw [held]
    exact named credential

theorem silent_chunk {entry : Entry Move (Machine Body)}
    (out : entry.after.out = entry.before.out) : controlChunk entry = [] := by
  rw [controlChunk, out, List.drop_length]

theorem requests_queued {before after : Machine Body} {move : Move} {request : Request}
    {sid : Nat} {frame : Bytes} (out : after.out = before.out ++ frame)
    (encoded : encode request sid = .ok frame) (named : sid % 0x10000 ≠ 0) :
    requestsIn (controlChunk ⟨before, move, after⟩) = [some request.opcode] := by
  rw [controlChunk, out, List.drop_left]
  exact requests_in_frame encoded named

theorem waiting_new (host : Text) (port : Nat) (config : Config)
    (credentials : Option (List (Credential Body))) (username : Text) (wantTls : Bool)
    (bindTo : Bytes)
    (named : ∀ given, credentials = some given → ∀ credential ∈ given, Fits credential.name) :
    Waiting [] (new host port config credentials username wantTls bindTo) := by
  refine fun _ => ⟨rfl, fun sid held => ?_, fun ladder given rung member => ?_, ?_⟩
  · simp [inFlight, new] at held
  · simp only [new, Option.map_eq_some_iff] at given
    obtain ⟨list, shape, rfl⟩ := given
    obtain ⟨credential, inside, rfl⟩ := List.mem_map.mp member
    exact named list shape credential inside
  · simp [new]

section Steps

variable [Exchange Body] {installation : Installation Body}

theorem challenged_run (header : ResponseHeader) (body : Bytes) (login : LoginInfo)
    (machine : Machine Body) (was : machine.state = .LOGIN) (accepted : admitted header.status)
    (parsed : parseLogin body = .ok login) (asked : login.sec ≠ []) :
    bringup installation header body machine =
      nextCredential installation login.sec { machine with
        sessionId := login.sessid, offered := login.mechanisms, state := .AUTH } := by
  have plain : header.status ≠ kXR_error := by
    rcases accepted with ok | more <;> simp [*]
  have known : ¬(header.status ≠ kXR_ok ∧ header.status ≠ kXR_authmore) := by
    rw [not_and_or, not_not, not_not]
    exact accepted
  simp only [bringup, if_neg plain, if_neg known, run_bind, run_get, was, parsed, attempt_ok,
    run_modify, if_neg asked]

theorem stepped_run (header : ResponseHeader) (body : Bytes) (machine : Machine Body)
    (was : machine.state = .AUTH) (more : header.status = kXR_authmore) :
    bringup installation header body machine = authStep installation body machine := by
  have plain : header.status ≠ kXR_error := by simp [more]
  have known : ¬(header.status ≠ kXR_ok ∧ header.status ≠ kXR_authmore) := by simp [more]
  simp only [bringup, if_neg plain, if_neg known, run_bind, run_get, was, if_pos more]

omit [Exchange Body] in
/-- The login or bind request goes out in answer to nothing, or in answer to the
one request that was unanswered. -/
theorem LoginMove.waiting (before : Machine Body) {login after : Machine Body} {move : Move}
    (small : installation.pid < 2 ^ 31) (moved : LoginMove installation login after)
    (out : login.out = before.out) (idle : ∀ sid, ¬login.inFlight sid) (fits : LadderFits login)
    (named : ∀ credential, login.credential = some credential → Fits credential.name)
    {unanswered : List (Option Nat)}
    (left : ∀ opcode, requestsIn (controlChunk ⟨before, move, after⟩) = [some opcode] →
      outstandingAfter unanswered ⟨before, move, after⟩ = [some opcode]) :
    Waiting (outstandingAfter unanswered ⟨before, move, after⟩) after := by
  intro bringing
  cases moved with
  | unbound wanted refused =>
      obtain ⟨frame, encoded⟩ := bind_encodes login.bindTo
      rw [encoded] at refused
      cases refused
  | unlogged wanted refused =>
      obtain ⟨frame, encoded⟩ := login_encodes login.username small
      rw [encoded] at refused
      cases refused
  | binding wanted encoded =>
      refine ⟨?_, idle, fits, named⟩
      exact left _ (requests_queued (show _ = before.out ++ _ by rw [← out]) encoded (by decide))
  | logging wanted encoded =>
      refine ⟨?_, idle, fits, named⟩
      exact left _ (requests_queued (show _ = before.out ++ _ by rw [← out]) encoded (by decide))

omit [Exchange Body] in
/-- A `kXR_auth` goes out in answer to the one request that was unanswered, or
bring-up is over. -/
theorem Presented.waiting {before climbing after : Machine Body} {move : Move}
    {unanswered : List (Option Nat)} (presented : Presented climbing after)
    (authenticating : climbing.state = .AUTH) (out : climbing.out = before.out)
    (idle : ∀ sid, ¬climbing.inFlight sid)
    (answered : (answer ⟨before, move, after⟩).isSome = true) (last : unanswered.tail = []) :
    Waiting (outstandingAfter unanswered ⟨before, move, after⟩) after := by
  cases presented with
  | exhausted => exact waiting_over rfl
  | @sent _ _ _ _ _ frame fits named encoded opcode =>
      intro bringing
      refine ⟨?_, idle, fits, fun credential same => ?_⟩
      · have queued : ∀ left : Machine Body, left.out = climbing.out ++ frame →
            requestsIn (controlChunk ⟨before, move, left⟩) = [some kXR_auth] := by
          intro left added
          rw [← opcode]
          exact requests_queued (added.trans (by rw [out])) encoded (by decide)
        rw [outstanding_answered answered (.inr (by rw [queued _ rfl]; simp)), last, queued _ rfl]
        simp only [authenticating]
        rfl
      · rw [Option.some.injEq] at same
        subst same
        exact named

theorem State.bringing_open {state : State} (bringing : state.bringingUp = true) :
    state.established = false := by
  cases state <;> first | rfl | cases bringing

theorem turn_waiting (presentable : Presentable installation) {pathid : Nat}
    {before after : Machine Body} {unanswered : List (Option Nat)}
    (waiting : Waiting unanswered before) (outer inner : ResponseHeader) (whole body : Bytes)
    (framer : Framer) (cut : (before.framer pathid).next = .frame outer whole framer)
    (opened : content outer whole = .ok (.response inner body))
    (bringing : before.state.bringingUp = true)
    (ran : after = final (bringup installation inner body (storeFramer pathid framer before)))
    (moved : BringupMove installation (storeFramer pathid framer before) inner body after) :
    Waiting (outstandingAfter unanswered ⟨before, .turn pathid, after⟩) after := by
  have answered : ∀ left : Machine Body,
      (answer ⟨before, .turn pathid, left⟩).isSome = true := by
    intro left
    simp [answer, cut, opened, bringing]
  obtain ⟨asked, idle, fits, named⟩ := waiting (State.bringing_open bringing)
  cases moved with
  | raised => exact waiting.quiet rfl (silent_chunk rfl) rfl rfl fun _ => id
  | failed | refused | bound | entered | authenticated => exact waiting_over rfl
  | shook was accepted =>
      have was : before.state = .HANDSHAKE := was
      intro _
      refine ⟨?_, idle, fits, named⟩
      rw [outstanding_answered (answered _) (.inl (by rw [was]; simp)), silent_chunk rfl, asked,
        was]
      rfl
  | upgrade info reason was accepted parsed due has =>
      have was : before.state = .PROTOCOL := was
      intro _
      refine ⟨?_, idle, fits, named⟩
      rw [outstanding_answered (answered _) (.inl (by rw [was]; simp [emit])), silent_chunk rfl,
        asked, was]
      rfl
  | login info was accepted parsed clear moved =>
      have was : before.state = .PROTOCOL := was
      refine moved.waiting before presentable.pid rfl idle fits named fun opcode queued => ?_
      rw [outstanding_answered (answered _) (.inr (by rw [queued]; simp)), queued, asked, was]
      rfl
  | challenged login was accepted parsed continued moved =>
      rw [challenged_run inner body login _ was accepted parsed continued] at ran
      have presented := next_credential_presents presentable login.sec
        { storeFramer pathid framer before with
          sessionId := login.sessid, offered := login.mechanisms, state := .AUTH } fits
      rw [← ran] at presented
      have was : before.state = .LOGIN := was
      exact presented.waiting rfl rfl idle (answered _) (by rw [asked, was]; rfl)
  | stepped was more moved =>
      rw [stepped_run inner body _ was more] at ran
      have was : before.state = .AUTH := was
      rcases auth_step_presents presentable body (storeFramer pathid framer before) fits named with
        presented | ⟨error, failed⟩
      · rw [← ran] at presented
        exact presented.waiting was rfl idle (answered _) (by rw [asked, was]; rfl)
      · rw [ran, failed]
        exact waiting_over rfl

omit [Exchange Body] in
theorem StreamsOnly.waiting {before after : Machine Body} {move : Move}
    {unanswered : List (Option Nat)} (only : StreamsOnly before after)
    (waiting : Waiting unanswered before)
    (fewer : ∀ sid, after.inFlight sid → before.inFlight sid) :
    Waiting (outstandingAfter unanswered ⟨before, move, after⟩) after := by
  refine waiting.quiet only.state (silent_chunk only.out) ?_ ?_ fewer
  · rw [only.same]
  · rw [only.same]

theorem StepMove.waiting (presentable : Presentable installation) {move : Move}
    {before after : Machine Body} {unanswered : List (Option Nat)}
    (moved : StepMove installation before move after) (waiting : Waiting unanswered before) :
    Waiting (outstandingAfter unanswered ⟨before, move, after⟩) after := by
  cases moved with
  | start moved =>
      cases moved with
      | refused => exact waiting.quiet rfl (silent_chunk rfl) rfl rfl fun _ => id
      | greeted fresh =>
          intro _
          obtain ⟨asked, idle, fits, named⟩ := waiting (by rw [fresh]; rfl)
          refine ⟨?_, idle, fits, named⟩
          rw [outstanding_asked rfl, asked, fresh, controlChunk]
          simp only [List.drop_left, requests_in_greeting]
          rfl
  | submit moved =>
      cases moved with
      | refused | exhausted | raised =>
          exact waiting.quiet rfl (silent_chunk rfl) rfl rfl fun _ => id
      | issued ready acquired made =>
          refine waiting_over ?_
          unfold enqueue
          dsimp only
          split_ifs <;> exact congrArg State.established ready
  | @resume streamid _ moved =>
      cases moved with
      | refused => exact waiting.quiet rfl (silent_chunk rfl) rfl rfl fun _ => id
      | resent pending found =>
          intro bringing
          have open_ : before.state.established = false := by
            split at bringing <;> exact bringing
          exact absurd (Dict.mem_keys_of_get found) ((waiting open_).idle streamid)
  | close moved =>
      cases moved with
      | exhausted | raised => exact waiting.quiet rfl (silent_chunk rfl) rfl rfl fun _ => id
      | farewell | silent => exact waiting_over rfl
  | tlsEstablished moved =>
      cases moved with
      | refused => exact waiting.quiet rfl (silent_chunk rfl) rfl rfl fun _ => id
      | secured due moved =>
          obtain ⟨asked, idle, fits, named⟩ := waiting (by rw [due]; rfl)
          refine moved.waiting before presentable.pid rfl idle fits named fun opcode queued => ?_
          rw [outstanding_asked rfl, queued, asked, due]
          rfl
  | turn moved =>
      obtain ⟨events, reports⟩ := moved.reports
      rcases moved.dichotomy with only | ⟨outer, inner, whole, body, framer, cut, opened, bringing,
        ran, moved⟩
      · exact only.waiting waiting reports.lawful.fewer
      · exact turn_waiting presentable waiting outer inner whole body framer cut opened bringing
          ran moved
  | release streamid =>
      refine (release_only streamid before).waiting waiting fun sid flying => ?_
      exact ((in_flight_release streamid sid before).mp flying).2
  | forgetPath pathid =>
      have only := forget_path_only pathid before
      refine waiting.quiet only.state (silent_chunk only.out) ?_ ?_ fun sid flying => ?_
      · rw [only.same]
        rfl
      · rw [only.same]
        rfl
      · exact ((in_flight_forget_path pathid sid before).mp flying).2
  | eof pathid =>
      obtain ⟨events, reports⟩ := eof_reports pathid before
      rcases eof_cases pathid before with ⟨-, -, only⟩ | ⟨-, -, only⟩ | ⟨-, only⟩
      · exact only.waiting waiting reports.lawful.fewer
      · refine waiting_over ?_
        rw [only.state]
        rfl
      · refine waiting.quiet only.state (silent_chunk only.out) ?_ ?_ reports.lawful.fewer
        · rw [only.same]
          rfl
        · rw [only.same]
          rfl
  | dataToSend =>
      refine waiting.quiet rfl ?_ rfl rfl fun _ => id
      simp [controlChunk]
  | feed | pathDataToSend | nextEvent =>
      exact waiting.quiet rfl (silent_chunk rfl) rfl rfl fun _ => id

theorem StepMove.established {move : Move} {before after : Machine Body}
    (moved : StepMove installation before move after) (done : before.state.established = true) :
    after.state.established = true := by
  obtain ⟨running, started, plain⟩ := State.established_running done
  cases moved with
  | start moved =>
      cases moved with
      | refused => exact done
      | greeted fresh => exact absurd fresh started
  | submit moved =>
      cases moved with
      | refused | exhausted | raised => exact done
      | issued ready acquired made =>
          unfold enqueue
          dsimp only
          split_ifs <;> exact done
  | resume moved =>
      cases moved with
      | refused => exact done
      | resent pending found => split <;> exact done
  | close moved =>
      cases moved with
      | exhausted | raised => exact done
      | farewell | silent => rfl
  | tlsEstablished moved =>
      cases moved with
      | refused => exact done
      | secured due moved => exact absurd due plain
  | turn moved => rw [(moved.only running).state, done]
  | release streamid => rw [(release_only streamid before).state, done]
  | forgetPath pathid =>
      rw [(forget_path_only pathid before).state]
      exact done
  | eof pathid =>
      rcases eof_cases pathid before with ⟨-, -, only⟩ | ⟨-, -, only⟩ | ⟨-, only⟩
      · rw [only.state, done]
      · rw [only.state]
        rfl
      · rw [only.state]
        exact done
  | feed | dataToSend | pathDataToSend | nextEvent => exact done

variable (installation)

theorem run_waiting (presentable : Presentable installation) (moves : List Move)
    {unanswered : List (Option Nat)} {machine : Machine Body}
    (waiting : Waiting unanswered machine) :
    Waiting ((history (step installation) moves machine).foldl outstandingAfter unanswered)
      (run (step installation) moves machine) := by
  induction moves generalizing unanswered machine with
  | nil => exact waiting
  | cons move rest induction =>
      exact induction ((step_move installation move machine).waiting presentable waiting)

theorem ready_answer (move : Move) (machine : Machine Body) {sessionId : Bytes} {mechanism : Text}
    (member : .ready sessionId mechanism ∈
      reported ⟨machine, move, step installation move machine⟩) :
    ∃ header body, answer ⟨machine, move, step installation move machine⟩ = some (header, body) ∧
      machine.state.established = false ∧ (step installation move machine).state = .READY ∧
      admitted header.status ∧
      (machine.state = .BIND ∨
        (machine.state = .LOGIN ∧ ∃ login, parseLogin body = .ok login ∧ login.sec = []) ∨
        (machine.state = .AUTH ∧ header.status = kXR_ok)) ∧
      reported ⟨machine, move, step installation move machine⟩ = [.ready sessionId mechanism] := by
  obtain ⟨pathid, rfl⟩ := admission_by_turn installation move machine member rfl
  obtain ⟨outer, inner, whole, body, framer, cut, opened, bringing, moved⟩ :=
    (turn_move installation pathid machine).admission member rfl
  obtain ⟨ready, accepted, asked, only⟩ := moved.ready (.turn pathid) member
  refine ⟨inner, body, ?_, State.bringing_open bringing, ready, accepted, asked, only⟩
  simp [answer, cut, opened, bringing]

def polite (entry : Entry Move (Machine Body)) : Bool :=
  match answer entry with
  | none => true
  | some (header, _) => header.status ≠ kXR_authmore || entry.before.state = .AUTH

omit [Exchange Body] in
theorem authmore_in_auth {entry : Entry Move (Machine Body)} {header : ResponseHeader}
    {body : Bytes} (behaved : polite entry = true) (taken : answer entry = some (header, body))
    (more : header.status = kXR_authmore) : entry.before.state = .AUTH := by
  simpa [polite, taken, more] using behaved

theorem authmore_stays (move : Move) (machine : Machine Body) {header : ResponseHeader}
    {body : Bytes} (was : machine.state = .AUTH)
    (taken : answer ⟨machine, move, step installation move machine⟩ = some (header, body))
    (more : header.status = kXR_authmore) :
    (step installation move machine).state = .AUTH ∨
      (step installation move machine).state = .FAILED := by
  cases move with
  | turn pathid =>
      rcases (turn_move installation pathid machine).dichotomy with only | ⟨outer, inner, whole,
        inside, framer, cut, opened, bringing, -, moved⟩
      · exact .inl (only.state.trans was)
      · have same : inner = header := by
          simp only [answer, cut, opened, bringing, if_true, Option.some.injEq,
            Prod.mk.injEq] at taken
          exact taken.1
        subst same
        have stored : (storeFramer pathid framer machine).state = .AUTH := was
        simp only [step]
        generalize final (turn installation pathid machine) = after at moved
        cases moved with
        | raised => exact .inl was
        | failed => exact .inr rfl
        | stepped _ _ moved =>
            cases moved with
            | sent | raised => exact .inl was
            | exhausted => exact .inr rfl
        | authenticated _ accepted =>
            rw [accepted] at more
            cases more
        | shook other | refused _ _ other | upgrade _ _ other | login _ other | bound _ other
          | entered _ other | challenged _ other =>
            rw [stored] at other
            cases other
  | start | submit | resume | release | close | tlsEstablished | eof | feed | forgetPath
    | dataToSend | pathDataToSend | nextEvent => cases taken

theorem ready_once (moves : List Move) (machine : Machine Body) :
    (log (step installation) (fun entry => (reported entry).filter Event.isReady) moves
      machine).length ≤ 1 := by
  have once := log_invariant (step installation)
    (fun entry => (reported entry).filter Event.isReady) (fun _ => True)
    (fun readies machine => readies.length ≤ 1 ∧
      (machine.state.established = false → readies = []))
    (fun readies machine move _ holds => by
      obtain ⟨few, early⟩ := holds
      by_cases none : (reported ⟨machine, move, step installation move machine⟩).filter
          Event.isReady = []
      · rw [none, List.append_nil]
        refine ⟨few, fun still => early ?_⟩
        rw [← Bool.not_eq_true]
        intro done
        rw [(step_move installation move machine).established done] at still
        cases still
      · obtain ⟨event, member⟩ := List.exists_mem_of_ne_nil _ none
        obtain ⟨listed, marks⟩ := List.mem_filter.mp member
        cases event with
        | ready sessionId mechanism =>
            obtain ⟨header, body, -, before, after, -, -, only⟩ :=
              ready_answer installation move machine listed
            rw [early before, only]
            refine ⟨le_refl 1, fun still => ?_⟩
            rw [after] at still
            cases still
        | _ => cases marks)
    moves [] machine (fun _ _ => trivial) ⟨Nat.zero_le _, fun _ => rfl⟩
  exact once.1

/-- In every run of every machine whose mechanisms can be presented, against a
server that asks for more only while somebody is authenticating: the machine is
ready at most once, on a `kXR_ok` in answer to the bind, the login or the
authentication it had sent; and a `kXR_authmore` makes nobody ready and leads
from `AUTH` to another round, or to failure. -/
theorem ready_only_on_acceptance (presentable : Presentable installation) (host : Text)
    (port : Nat) (config : Config) (credentials : Option (List (Credential Body)))
    (username : Text) (wantTls : Bool) (bindTo : Bytes) (calls : List Call)
    (named : ∀ given, credentials = some given → ∀ credential ∈ given, Fits credential.name)
    (behaved : ∀ entry ∈ traced installation calls
      (new host port config credentials username wantTls bindTo), polite entry = true) :
    let trace := traced installation calls
      (new host port config credentials username wantTls bindTo)
    (trace.flatMap fun entry => (reported entry).filter Event.isReady).length ≤ 1 ∧
    (∀ first entry later sessionId mechanism, trace = first ++ entry :: later →
      .ready sessionId mechanism ∈ reported entry →
      ∃ header body, answer entry = some (header, body) ∧ header.status = kXR_ok ∧
        (outstanding first = [some kXR_bind] ∨
          (outstanding first = [some kXR_login] ∧
            ∃ login, parseLogin body = .ok login ∧ login.sec = []) ∨
          outstanding first = [some kXR_auth])) ∧
    (∀ entry ∈ trace, ∀ header body, answer entry = some (header, body) →
      header.status = kXR_authmore →
      entry.before.state = .AUTH ∧ (entry.after.state = .AUTH ∨ entry.after.state = .FAILED) ∧
        ∀ sessionId mechanism, .ready sessionId mechanism ∉ reported entry) := by
  intro trace
  refine ⟨ready_once installation _ _,
    fun first entry later sessionId mechanism split ready => ?_,
    fun entry member header body taken more => ?_⟩
  · obtain ⟨before, rest, -, reached, stepped, -, past⟩ := history_split _ split
    obtain ⟨start, move, left⟩ := entry
    dsimp only at reached stepped
    subst stepped
    obtain ⟨header, body, taken, open_, -, accepted, asked, -⟩ :=
      ready_answer installation move start ready
    have waiting : Waiting (outstanding first) start := by
      rw [past, reached]
      exact run_waiting installation presentable before
        (waiting_new host port config credentials username wantTls bindTo named)
    have awaited := (waiting open_).asked
    have plain : header.status = kXR_ok := by
      rcases accepted with ok | more
      · exact ok
      · have inside : ⟨start, move, step installation move start⟩ ∈ trace := by simp [split]
        have was : start.state = .AUTH := authmore_in_auth (behaved _ inside) taken more
        rcases asked with bound | ⟨logged, -⟩ | ⟨-, ok⟩
        · rw [was] at bound
          cases bound
        · rw [was] at logged
          cases logged
        · exact ok
    refine ⟨header, body, taken, plain, ?_⟩
    rw [awaited]
    rcases asked with bound | ⟨logged, done⟩ | ⟨authenticating, -⟩
    · exact .inl (by rw [bound]; rfl)
    · exact .inr (.inl ⟨by rw [logged]; rfl, done⟩)
    · exact .inr (.inr (by rw [authenticating]; rfl))
  · have was := authmore_in_auth (behaved entry member) taken more
    obtain ⟨before, rest, -, -, stepped⟩ := mem_history _ member
    obtain ⟨start, move, left⟩ := entry
    dsimp only at stepped was
    subst stepped
    refine ⟨was, authmore_stays installation move start was taken more,
      fun sessionId mechanism ready => ?_⟩
    obtain ⟨other, inside, same, -, -, -, asked, -⟩ := ready_answer installation move start ready
    rw [taken, Option.some.injEq, Prod.mk.injEq] at same
    rw [same.1] at more
    rcases asked with bound | ⟨logged, -⟩ | ⟨-, ok⟩
    · rw [was] at bound
      cases bound
    · rw [was] at logged
      cases logged
    · rw [more] at ok
      cases ok

end Steps

/-- A server that answers the login with a request for more: the machine takes
it for a yes. -/
theorem authmore_admits :
    let machine : Machine OneShot := new (str "data") DEFAULT_PORT {} none [] false []
    let calls : List Call := [.start, .receiveData (greets 1 [] ++
      response sidLogin kXR_authmore (List.replicate SESSION_ID_LEN 7)) 0]
    ∃ entry ∈ traced (Installation.bare OneShot) calls machine, ∃ header body,
      answer entry = some (header, body) ∧ header.status = kXR_authmore ∧
      entry.before.state = .LOGIN ∧ entry.after.state = .READY ∧
      (reported entry).any Event.isReady = true := by
  intro machine calls
  have found : (traced (Installation.bare OneShot) calls machine).any (fun entry =>
      decide (answer entry = some (⟨sidLogin, kXR_authmore, SESSION_ID_LEN⟩,
        List.replicate SESSION_ID_LEN 7)) && decide (entry.before.state = .LOGIN) &&
      decide (entry.after.state = .READY) && (reported entry).any Event.isReady) = true := by
    decide +kernel
  obtain ⟨entry, member, facts⟩ := List.any_eq_true.mp found
  simp only [Bool.and_eq_true, decide_eq_true_eq] at facts
  obtain ⟨⟨⟨taken, was⟩, ready⟩, announced⟩ := facts
  exact ⟨entry, member, _, _, taken, rfl, was, ready, announced⟩

/-- The registered mechanisms, of a process with nothing but a token to show. -/
def shipped : Installation OneShot := installation Methods.oneShots (Process.bearer (str "token"))

theorem shipped_presentable : Presentable shipped :=
  one_shots_presentable (fun _ => ⟨none, rfl⟩) (by decide)

theorem unix_admitted :
    let machine := new (str "data") DEFAULT_PORT {} none [] false []
    let calls : List Call := [.start, .receiveData (greets 1 [] ++ admits (str "&P=unix") ++
      response sidAuth kXR_ok []) 0]
    let trace := traced shipped calls machine
    (after shipped calls machine).state = .READY ∧
      (trace.flatMap fun entry => (reported entry).filter Event.isReady).length ≤ 1 := by
  intro machine calls trace
  refine ⟨by decide +kernel, ?_⟩
  have behaved : trace.all polite = true := by decide +kernel
  refine (ready_only_on_acceptance shipped shipped_presentable (str "data") DEFAULT_PORT {} none []
    false [] calls ?_ (List.all_eq_true.mp behaved)).1
  intro given same
  cases same

end Machine

end XRootDClient.Proto

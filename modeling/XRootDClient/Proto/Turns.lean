import XRootDClient.Proto.Moves

/-!
# What one turn of the inbound loop can do

A frame is opened (`content`), and what it carries goes to bring-up or to the
stream it names. `StreamMove` lists what a response does to a stream in flight,
`TurnMove` what a whole turn does to the machine; the loop and the feeding of a
link are chains of turns.
-/

set_option autoImplicit false

namespace XRootDClient.Proto.Machine

open Lib Lib.BigEndian Lib.Stateful Auth Crypto

variable {Body : Type}

inductive Content
  | notice (info : AttnInfo)
  | response (header : ResponseHeader) (body : Bytes)

def content (header : ResponseHeader) (body : Bytes) : Except Exception Content :=
  if header.status = kXR_attn then
    match parseAttn body with
    | .error error => .error error
    | .ok info =>
        if info.action = kXR_asynresp ∧ body.length ≥ 16 then
          match decodeHeader ((body.drop 8).take 8) with
          | .error error => .error error
          | .ok inner => .ok (.response inner (body.drop 16))
        else .ok (.notice info)
  else .ok (.response header body)

section Dispatch

variable [Exchange Body] (installation : Installation Body)

theorem dispatch_run (header : ResponseHeader) (body : Bytes) (framer : Framer)
    (machine : Machine Body) :
    dispatch installation header body framer machine = match content header body with
      | .error error => .error error machine
      | .ok (.notice info) => .ok framer (emit (.attention info) machine)
      | .ok (.response header body) => respond installation header body framer machine := by
  unfold dispatch content
  by_cases wrapped : header.status = kXR_attn
  · rw [if_pos wrapped, if_pos wrapped]
    simp only [unwrapAttn, run_bind]
    cases parsed : parseAttn body with
    | error error => rfl
    | ok info =>
        simp only [attempt_ok]
        by_cases async : info.action = kXR_asynresp ∧ body.length ≥ 16
        · rw [if_pos async, if_pos async]
          cases opened : decodeHeader ((body.drop 8).take 8) <;> rfl
        · rw [if_neg async, if_neg async]
          rfl
  · rw [if_neg wrapped, if_neg wrapped]

end Dispatch

/-- What a response does to the stream it names, and the framer its link is
left with. -/
inductive StreamMove (before : Machine Body) (header : ResponseHeader) (body : Bytes)
    (pending : Pending) (framer : Framer) : Machine Body → Framer → Prop
  | raised (complete : header.status ≠ kXR_ok) (piece : header.status ≠ kXR_oksofar)
      (garbled : header.status = kXR_status → ∃ error, parseStatus body = .error error) :
      StreamMove before header body pending framer before framer
  | completed (status : header.status = kXR_ok) :
      StreamMove before header body pending framer
        (emit (.completed header.streamid pending.request (pending.buffer ++ body) pending.status)
          (release header.streamid before)) framer
  | chunk (status : header.status = kXR_oksofar) :
      StreamMove before header body pending framer
        (emit (.chunk header.streamid pending.request body)
          (updatePending header.streamid { pending with buffer := pending.buffer ++ body } before))
        framer
  | failed (info : ErrorInfo) (status : header.status = kXR_error)
      (parsed : parseError body = .ok info) :
      StreamMove before header body pending framer
        (emit (.failed (some header.streamid) (some pending.request)
          (serverError info pending.path)) (release header.streamid before)) framer
  | unexpected (message : Text) (unknown : header.status ∉ [kXR_ok, kXR_oksofar, kXR_error,
      kXR_redirect, kXR_wait, kXR_waitresp, kXR_status]) :
      StreamMove before header body pending framer
        (emit (.failed (some header.streamid) (some pending.request) (.protocolError message))
          (release header.streamid before)) framer
  | redirected (target : RedirectInfo) (status : header.status = kXR_redirect) :
      StreamMove before header body pending framer
        (emit (.redirected header.streamid pending.request target) before) framer
  | waiting (seconds : ℚ) (message : Text) (resend : Bool)
      (status : header.status = if resend then kXR_wait else kXR_waitresp) :
      StreamMove before header body pending framer
        (emit (.waiting header.streamid pending.request seconds message resend) before) framer
  | collecting (info : StatusInfo) (status : header.status = kXR_status)
      (parsed : parseStatus body = .ok info) (long : info.dlen ≠ 0) :
      StreamMove before header body pending framer
        (updatePending header.streamid { pending with status := some info } before)
        { framer with needTrailer := info.dlen, trailerFor := some header.streamid }
  | settled (info : StatusInfo) (status : header.status = kXR_status)
      (parsed : parseStatus body = .ok info) (short : info.dlen = 0) :
      StreamMove before header body pending framer
        (onStatusData header.streamid []
          (updatePending header.streamid { pending with status := some info } before)) framer

/-- What a computation that answers with a framer leaves: the machine, and the
framer it answered with or else the one it was given. -/
def outcome (framer : Framer) :
    EStateM.Result Exception (Machine Body) Framer → Machine Body × Framer
  | .ok answered machine => (machine, answered)
  | .error _ machine => (machine, framer)

theorem on_response_move (header : ResponseHeader) (body : Bytes) (pending : Pending)
    (framer : Framer) (machine : Machine Body) :
    let left := outcome framer (onResponse header body pending framer machine)
    StreamMove machine header body pending framer left.1 left.2 := by
  unfold onResponse
  dsimp only
  split_ifs with ok sofar error redirect wait waitresp status
  · exact .completed ok
  · exact .chunk sofar
  · rw [run_bind]
    cases parsed : parseError body with
    | error failure => exact .raised ok sofar fun status => by rw [error] at status; cases status
    | ok info => exact .failed info error parsed
  · rw [run_bind]
    cases parsed : parseRedirect body with
    | error failure =>
        exact .raised ok sofar fun status => by rw [redirect] at status; cases status
    | ok target => exact .redirected target redirect
  · rw [run_bind]
    cases parsed : parseWait body with
    | error failure => exact .raised ok sofar fun status => by rw [wait] at status; cases status
    | ok told => exact .waiting _ _ true wait
  · rw [run_bind]
    cases parsed : parseWaitresp body with
    | error failure =>
        exact .raised ok sofar fun status => by rw [waitresp] at status; cases status
    | ok told => exact .waiting _ _ false waitresp
  · rw [run_bind]
    cases parsed : parseStatus body with
    | error failure => exact .raised ok sofar fun _ => ⟨failure, parsed⟩
    | ok info =>
        simp only [attempt_ok, run_bind, run_modify]
        by_cases short : info.dlen = 0
        · rw [if_neg (not_not.mpr short)]
          exact .settled info status parsed short
        · rw [if_pos short]
          exact .collecting info status parsed short
  · exact .unexpected _ (by simp [ok, sofar, error, redirect, wait, waitresp, status])

/-- Nothing but the streams, the events and the links differs. -/
structure StreamsOnly (before after : Machine Body) : Prop where
  same : after = { before with
    pending := after.pending, free := after.free, events := after.events
    framers := after.framers }

namespace StreamsOnly

variable {before after : Machine Body}

theorem refl (machine : Machine Body) : StreamsOnly machine machine := ⟨rfl⟩

theorem state (only : StreamsOnly before after) : after.state = before.state := by
  rw [only.same]

theorem out (only : StreamsOnly before after) : after.out = before.out := by
  rw [only.same]

theorem outPath (only : StreamsOnly before after) : after.outPath = before.outPath := by
  rw [only.same]

theorem signer (only : StreamsOnly before after) : after.signer = before.signer := by
  rw [only.same]

theorem tlsActive (only : StreamsOnly before after) : after.tlsActive = before.tlsActive := by
  rw [only.same]

theorem wantTls (only : StreamsOnly before after) : after.wantTls = before.wantTls := by
  rw [only.same]

theorem protocolInfo (only : StreamsOnly before after) :
    after.protocolInfo = before.protocolInfo := by
  rw [only.same]

end StreamsOnly

theorem release_frame (sid : Nat) (machine : Machine Body) :
    release sid machine = { machine with
      pending := (release sid machine).pending, free := (release sid machine).free } := by
  unfold release
  split <;> rfl

theorem on_status_data_frame (sid : Nat) (data : Bytes) (machine : Machine Body) :
    onStatusData sid data machine = { machine with
      pending := (onStatusData sid data machine).pending
      free := (onStatusData sid data machine).free
      events := (onStatusData sid data machine).events } := by
  unfold onStatusData
  split
  · rfl
  split
  · rfl
  split
  · rw [release_frame]
    rfl
  · rfl

theorem StreamMove.frame {before after : Machine Body} {header : ResponseHeader} {body : Bytes}
    {pending : Pending} {framer left : Framer}
    (move : StreamMove before header body pending framer after left) :
    after = { before with
      pending := after.pending, free := after.free, events := after.events } := by
  cases move with
  | settled info status parsed short => exact on_status_data_frame _ _ _
  | completed | failed | unexpected =>
      simp only [emit, release]
      split <;> rfl
  | raised | chunk | redirected | waiting | collecting => rfl

theorem LadderMove.frame {before after : Machine Body} (move : LadderMove before after) :
    after = { before with
      state := after.state, out := after.out, events := after.events
      credentials := after.credentials, credential := after.credential
      mechanism := after.mechanism, authRejected := after.authRejected } := by
  cases move <;> rfl

theorem LoginMove.frame {installation : Installation Body} {before after : Machine Body}
    (move : LoginMove installation before after) :
    after = { before with state := after.state, out := after.out } := by
  cases move <;> rfl

section BringUp

variable [Exchange Body]

theorem BringupMove.frame {installation : Installation Body} {before after : Machine Body}
    {header : ResponseHeader} {body : Bytes}
    (move : BringupMove installation before header body after) :
    after = { before with
      state := after.state, out := after.out, events := after.events
      protocolInfo := after.protocolInfo, pathid := after.pathid, sessionId := after.sessionId
      signer := after.signer, offered := after.offered
      credentials := after.credentials, credential := after.credential
      mechanism := after.mechanism, authRejected := after.authRejected } := by
  cases move with
  | login info was accepted parsed clear move =>
      rw [move.frame]
      rfl
  | challenged login was accepted parsed asked move =>
      rw [move.frame]
  | stepped was more move =>
      rw [move.frame]
  | raised | failed | shook | refused | upgrade | bound | entered | authenticated => rfl

/-- What one turn of the loop on a link can do. Whatever it takes off the link's
buffer is off it before anything else happens. -/
inductive TurnMove (installation : Installation Body) (pathid : Nat) (before : Machine Body) :
    Machine Body → Prop
  | refused (error : Exception) (cut : (before.framer pathid).next = .raises error) :
      TurnMove installation pathid before before
  | waited (framer : Framer) (cut : (before.framer pathid).next = .waits framer) :
      TurnMove installation pathid before (storeFramer pathid framer before)
  | orphan (data : Bytes) (framer : Framer)
      (cut : (before.framer pathid).next = .trailer none data framer) :
      TurnMove installation pathid before (storeFramer pathid framer before)
  | trailer (sid : Nat) (data : Bytes) (framer : Framer)
      (cut : (before.framer pathid).next = .trailer (some sid) data framer) :
      TurnMove installation pathid before
        (onStatusData sid data (storeFramer pathid framer before))
  | garbled (header : ResponseHeader) (body : Bytes) (framer : Framer) (error : Exception)
      (cut : (before.framer pathid).next = .frame header body framer)
      (opened : content header body = .error error) :
      TurnMove installation pathid before (storeFramer pathid framer before)
  | notice (header : ResponseHeader) (body : Bytes) (framer : Framer) (info : AttnInfo)
      (cut : (before.framer pathid).next = .frame header body framer)
      (opened : content header body = .ok (.notice info)) :
      TurnMove installation pathid before
        (emit (.attention info) (storeFramer pathid framer before))
  | bringup (outer inner : ResponseHeader) (whole body : Bytes) (framer : Framer)
      {after : Machine Body} (cut : (before.framer pathid).next = .frame outer whole framer)
      (opened : content outer whole = .ok (.response inner body))
      (waiting : before.state.bringingUp = true)
      (ran : after = final (bringup installation inner body (storeFramer pathid framer before)))
      (move : BringupMove installation (storeFramer pathid framer before) inner body after) :
      TurnMove installation pathid before after
  | unknown (outer inner : ResponseHeader) (whole body : Bytes) (framer : Framer)
      (cut : (before.framer pathid).next = .frame outer whole framer)
      (opened : content outer whole = .ok (.response inner body))
      (running : before.state.bringingUp = false)
      (absent : before.pending.get? inner.streamid = none) :
      TurnMove installation pathid before (storeFramer pathid framer before)
  | stream (outer inner : ResponseHeader) (whole body : Bytes) (framer left : Framer)
      (pending : Pending) {after : Machine Body}
      (cut : (before.framer pathid).next = .frame outer whole framer)
      (opened : content outer whole = .ok (.response inner body))
      (running : before.state.bringingUp = false)
      (found : before.pending.get? inner.streamid = some pending)
      (move : StreamMove (storeFramer pathid framer before) inner body pending framer after left) :
      TurnMove installation pathid before (storeFramer pathid left after)

omit [Exchange Body] in
theorem on_status_data_only (pathid : Nat) (framer : Framer) (sid : Nat) (data : Bytes)
    (machine : Machine Body) :
    StreamsOnly machine (onStatusData sid data (storeFramer pathid framer machine)) := by
  constructor
  rw [on_status_data_frame]
  rfl

/-- A turn touches the streams, the events and the links only, or it is one of
bring-up. -/
theorem TurnMove.dichotomy {installation : Installation Body} {pathid : Nat}
    {before after : Machine Body} (move : TurnMove installation pathid before after) :
    StreamsOnly before after ∨ ∃ outer inner whole body framer,
      (before.framer pathid).next = .frame outer whole framer ∧
      content outer whole = .ok (.response inner body) ∧ before.state.bringingUp = true ∧
      after = final (Machine.bringup installation inner body (storeFramer pathid framer before)) ∧
      BringupMove installation (storeFramer pathid framer before) inner body after := by
  cases move with
  | refused | waited | orphan | garbled | notice | unknown => exact .inl ⟨rfl⟩
  | trailer sid data framer cut => exact .inl (on_status_data_only pathid framer sid data before)
  | bringup outer inner whole body framer cut opened waiting ran move =>
      exact .inr ⟨outer, inner, whole, body, framer, cut, opened, waiting, ran, move⟩
  | stream outer inner whole body framer left pending cut opened running found move =>
      refine .inl ⟨?_⟩
      rw [move.frame]
      rfl

theorem TurnMove.only {installation : Installation Body} {pathid : Nat}
    {before after : Machine Body} (running : before.state.bringingUp = false)
    (move : TurnMove installation pathid before after) : StreamsOnly before after := by
  rcases move.dichotomy with only | ⟨-, -, -, -, -, -, -, waiting, -, -⟩
  · exact only
  · rw [running] at waiting
    cases waiting

omit [Exchange Body] in
@[simp] theorem framer_store_self (pathid : Nat) (framer : Framer) (machine : Machine Body) :
    (storeFramer pathid framer machine).framer pathid = framer := by
  simp [Machine.framer, storeFramer, Dict.getD]

omit [Exchange Body] in
theorem store_framer_same (pathid : Nat) (framer : Framer) (machine : Machine Body)
    (found : machine.framers.get? pathid = some framer) :
    storeFramer pathid framer machine = machine := by
  simp only [storeFramer, Dict.set_same machine.framers found]

theorem turn_run (installation : Installation Body) (pathid : Nat) (machine : Machine Body) :
    turn installation pathid machine = match (machine.framer pathid).next with
      | .waits framer => .ok false (storeFramer pathid framer machine)
      | .raises error => .error error machine
      | .trailer none _ framer => .error .assertionError (storeFramer pathid framer machine)
      | .trailer (some sid) data framer =>
          .ok true (onStatusData sid data (storeFramer pathid framer machine))
      | .frame header body framer =>
          match dispatch installation header body framer (storeFramer pathid framer machine) with
          | .ok left machine => .ok true (storeFramer pathid left machine)
          | .error error machine => .error error machine := by
  simp only [turn, run_bind, run_get]
  cases cut : (machine.framer pathid).next with
  | waits framer => rfl
  | raises error => rfl
  | trailer sid data framer => cases sid <;> rfl
  | frame header body framer =>
      simp only [run_bind, run_modify]
      cases dispatch installation header body framer (storeFramer pathid framer machine) <;> rfl

theorem respond_run (installation : Installation Body) (header : ResponseHeader) (body : Bytes)
    (framer : Framer) (machine : Machine Body) :
    respond installation header body framer machine =
      if machine.state.bringingUp then
        match bringup installation header body machine with
        | .ok _ machine => .ok framer machine
        | .error error machine => .error error machine
      else
        match machine.pending.get? header.streamid with
        | none => .ok framer machine
        | some pending => onResponse header body pending framer machine := by
  simp only [respond, run_bind, run_get]
  split_ifs with waiting
  · rw [run_bind]
    cases bringup installation header body machine <;> rfl
  · cases machine.pending.get? header.streamid <;> rfl

private theorem bringup_turn (installation : Installation Body) (pathid : Nat)
    (machine : Machine Body) (outer inner : ResponseHeader) (whole body : Bytes) (framer : Framer)
    (cut : (machine.framer pathid).next = .frame outer whole framer)
    (opened : content outer whole = .ok (.response inner body))
    (waiting : machine.state.bringingUp = true) :
    TurnMove installation pathid machine (final
      (match (match bringup installation inner body (storeFramer pathid framer machine) with
        | .ok _ machine => .ok framer machine
        | .error error machine => .error error machine :
          EStateM.Result Exception (Machine Body) Framer) with
      | .ok left machine => .ok true (storeFramer pathid left machine)
      | .error error machine => .error error machine)) := by
  have move := bringup_move installation inner body (storeFramer pathid framer machine) waiting
  cases ran : bringup installation inner body (storeFramer pathid framer machine) with
  | error error after =>
      rw [ran] at move
      exact .bringup outer inner whole body framer cut opened waiting (by rw [ran]; rfl) move
  | ok value after =>
      rw [ran, final_ok] at move
      have links : after.framers = (storeFramer pathid framer machine).framers := by
        rw [move.frame]
      have found : after.framers.get? pathid = some framer := by
        rw [links]
        simp [storeFramer]
      rw [final_ok, store_framer_same pathid framer after found]
      exact .bringup outer inner whole body framer cut opened waiting (by rw [ran]; rfl) move

private theorem stream_turn (installation : Installation Body) (pathid : Nat)
    (machine : Machine Body) (outer inner : ResponseHeader) (whole body : Bytes) (framer : Framer)
    (pending : Pending) (cut : (machine.framer pathid).next = .frame outer whole framer)
    (opened : content outer whole = .ok (.response inner body))
    (running : machine.state.bringingUp = false)
    (found : machine.pending.get? inner.streamid = some pending) :
    TurnMove installation pathid machine (final
      (match onResponse inner body pending framer (storeFramer pathid framer machine) with
      | .ok left machine => .ok true (storeFramer pathid left machine)
      | .error error machine => .error error machine)) := by
  have move := on_response_move inner body pending framer (storeFramer pathid framer machine)
  cases ran : onResponse inner body pending framer (storeFramer pathid framer machine) with
  | ok left after =>
      rw [ran] at move
      exact .stream outer inner whole body framer left pending cut opened running found move
  | error error after =>
      rw [ran] at move
      have links : after.framers = (storeFramer pathid framer machine).framers := by
        rw [show after = _ from move.frame]
      have stored : after.framers.get? pathid = some framer := by
        rw [links]
        simp [storeFramer]
      rw [final_error, ← store_framer_same pathid framer after stored]
      exact .stream outer inner whole body framer framer pending cut opened running found move

theorem turn_move (installation : Installation Body) (pathid : Nat) (machine : Machine Body) :
    TurnMove installation pathid machine (final (turn installation pathid machine)) := by
  rw [turn_run]
  cases cut : (machine.framer pathid).next with
  | waits framer => exact .waited framer cut
  | raises error => exact .refused error cut
  | trailer sid data framer =>
      cases sid with
      | none => exact .orphan data framer cut
      | some sid => exact .trailer sid data framer cut
  | frame outer whole framer =>
      simp only [dispatch_run]
      cases opened : content outer whole with
      | error error => exact .garbled outer whole framer error cut opened
      | ok carried =>
          cases carried with
          | notice info =>
              dsimp only
              rw [store_framer_same pathid framer (emit _ _) (by simp [emit, storeFramer])]
              exact .notice outer whole framer info cut opened
          | response inner body =>
              simp only [respond_run]
              cases waiting : machine.state.bringingUp with
              | true =>
                  rw [if_pos (show (storeFramer pathid framer machine).state.bringingUp = true
                    from waiting)]
                  exact bringup_turn installation pathid machine outer inner whole body framer
                    cut opened waiting
              | false =>
                  rw [if_neg (show ¬(storeFramer pathid framer machine).state.bringingUp = true
                    from by simp [storeFramer, waiting])]
                  cases found : machine.pending.get? inner.streamid with
                  | none =>
                      simp only [show (storeFramer pathid framer machine).pending = machine.pending
                        from rfl, found, final_ok]
                      rw [store_framer_same pathid framer _ (by simp [storeFramer])]
                      exact .unknown outer inner whole body framer cut opened waiting found
                  | some pending =>
                      simp only [show (storeFramer pathid framer machine).pending = machine.pending
                        from rfl, found]
                      exact stream_turn installation pathid machine outer inner whole body framer
                        pending cut opened waiting found

end BringUp

end XRootDClient.Proto.Machine

import XRootDClient.Proto.Cursor

/-!
# Nothing looks at the links

What the machine does with a frame it has taken reads no cursor and writes none
but the one of the link it came on: changing the cursors first and handling the
frame then is the same as handling it first and changing them then.
-/

set_option autoImplicit false

namespace XRootDClient.Proto

open Lib Lib.BigEndian Lib.Stateful Lib.Run Auth

namespace Machine

variable {Body : Type}

def relink (change : Dict Nat Framer → Dict Nat Framer) (machine : Machine Body) : Machine Body :=
  { machine with framers := change machine.framers }

variable (change : Dict Nat Framer → Dict Nat Framer)

theorem commutes_attempt {Value : Type} (result : Except Exception Value) :
    Commutes (relink change) (attempt result : Act Body Value) := by
  intro machine
  cases result <;> rfl

theorem queue_commutes (request : Request) (sid : Nat) :
    Commutes (relink change) (queue request sid : Act Body Unit) :=
  commutes_bind (commutes_attempt change _) fun _ => commutes_modify fun _ => rfl

theorem queue_auth_commutes (name : Text) (blob : Bytes) :
    Commutes (relink change) (queueAuth name blob : Act Body Unit) :=
  commutes_bind (commutes_attempt change _) fun _ => queue_commutes change _ _

theorem release_relink (sid : Nat) (machine : Machine Body) :
    release sid (relink change machine) = relink change (release sid machine) := by
  unfold release
  rw [show (relink change machine).pending = machine.pending from rfl]
  cases machine.pending.get? sid <;> rfl

theorem on_status_data_relink (sid : Nat) (data : Bytes) (machine : Machine Body) :
    onStatusData sid data (relink change machine) =
      relink change (onStatusData sid data machine) := by
  unfold onStatusData
  rw [show (relink change machine).pending = machine.pending from rfl]
  cases machine.pending.get? sid with
  | none => rfl
  | some pending =>
      dsimp only
      cases pending.status with
      | none => rfl
      | some info =>
          dsimp only
          split_ifs
          · rw [release_relink]
            rfl
          · rfl

section BringUp

variable [Exchange Body] (installation : Installation Body)

theorem climb_commutes (rungs : List (Rung Body)) :
    Commutes (relink change) (climb installation rungs) := by
  induction rungs with
  | nil => exact commutes_modify fun _ => rfl
  | cons rung rest induction =>
      intro machine
      simp only [climb, run_bind, run_get, run_set]
      rw [show (relink change machine).credentials = machine.credentials from rfl,
        show (relink change machine).authRejected = machine.authRejected from rfl]
      generalize machine.credentials.getD { rungs := [] } = ladder
      rcases ladder.reach installation rung machine.authRejected with ⟨outcome, why⟩
      cases outcome with
      | error error => rfl
      | ok yielded =>
          cases yielded with
          | none => exact induction { machine with credentials := _, authRejected := why }
          | some credential =>
              simp only [attempt_ok]
              cases (Exchange.initial credential.body).1 with
              | error error =>
                  simp only [run_bind, run_modify]
                  split
                  · rfl
                  · exact induction { machine with
                      credentials := some (ladder.after rung rest (.ok (some credential)))
                      authRejected := why.set credential.name error.describe }
              | ok blob =>
                  simp only [run_bind, run_modify]
                  exact queue_auth_commutes change credential.name blob
                    { machine with
                      credentials := _, authRejected := why, credential := _, mechanism := _ }

theorem next_credential_commutes (sec : Text) :
    Commutes (relink change) (nextCredential installation sec) :=
  commutes_bind (commutes_modify fun _ => rfl) fun _ =>
    commutes_get fun machine => climb_commutes change installation _ machine

theorem auth_step_commutes (challenge : Bytes) :
    Commutes (relink change) (authStep installation challenge) := by
  refine commutes_get fun machine => ?_
  dsimp only
  rw [show (relink change machine).credential = machine.credential from rfl]
  cases machine.credential with
  | none => rfl
  | some credential =>
      simp only [run_bind, run_set]
      cases (Exchange.step credential.body challenge).1 with
      | error error =>
          simp only [run_bind, run_modify]
          exact next_credential_commutes change installation [] { machine with
            credential := some { credential with
              body := (Exchange.step credential.body challenge).2 }
            authRejected := (machine.authRejected.set credential.name error.describe).setDefault
              credential.name _ }
      | ok answer =>
          cases answer with
          | none =>
              simp only [run_bind, run_modify]
              exact next_credential_commutes change installation [] { machine with
                credential := some { credential with
                  body := (Exchange.step credential.body challenge).2 }
                authRejected := machine.authRejected.setDefault credential.name _ }
          | some blob =>
              exact queue_auth_commutes change credential.name blob { machine with
                credential := some { credential with
                  body := (Exchange.step credential.body challenge).2 } }

omit [Exchange Body] in
theorem begin_login_commutes : Commutes (relink change) (beginLogin installation) := by
  refine commutes_get fun machine => ?_
  rw [show (relink change machine).bindTo = machine.bindTo from rfl]
  split_ifs
  · exact queue_commutes change _ _ { machine with state := .BIND }
  · exact queue_commutes change _ _ { machine with state := .LOGIN }

omit [Exchange Body] in
theorem after_protocol_commutes : Commutes (relink change) (afterProtocol installation) := by
  refine commutes_get fun machine => ?_
  rw [show (relink change machine).protocolInfo = machine.protocolInfo from rfl,
    show (relink change machine).wantTls = machine.wantTls from rfl]
  split_ifs
  · rfl
  · rfl
  · rfl
  · exact begin_login_commutes change installation machine

theorem bringup_commutes (header : ResponseHeader) (body : Bytes) :
    Commutes (relink change) (bringup installation header body) := by
  unfold bringup
  by_cases plain : header.status = kXR_error
  · rw [if_pos plain]
    exact commutes_bind (commutes_attempt change _) fun _ => commutes_modify fun _ => rfl
  rw [if_neg plain]
  by_cases strange : header.status ≠ kXR_ok ∧ header.status ≠ kXR_authmore
  · rw [if_pos strange]
    exact commutes_modify fun _ => rfl
  · rw [if_neg strange]
    refine commutes_get fun machine => ?_
    rw [show (relink change machine).state = machine.state from rfl]
    have stays : Commutes (relink change)
        (if header.status = kXR_authmore then authStep installation body
          else modify becomeReady : Act Body Unit) := by
      by_cases more : header.status = kXR_authmore
      · rw [if_pos more]
        exact auth_step_commutes change installation body
      · rw [if_neg more]
        exact commutes_modify fun _ => rfl
    cases machine.state with
    | HANDSHAKE => rfl
    | PROTOCOL =>
        dsimp only
        refine commutes_bind (commutes_attempt change _) (fun _ => ?_) machine
        refine commutes_bind (commutes_modify fun _ => rfl) fun _ => ?_
        exact after_protocol_commutes change installation
    | BIND =>
        dsimp only
        refine commutes_bind (commutes_attempt change _) (fun _ => ?_) machine
        exact commutes_modify fun _ => rfl
    | LOGIN =>
        dsimp only
        refine commutes_bind (commutes_attempt change _) (fun login => ?_) machine
        refine commutes_bind (commutes_modify fun _ => rfl) fun _ => ?_
        by_cases done : login.sec = []
        · rw [if_pos done]
          exact commutes_modify fun _ => rfl
        · rw [if_neg done]
          refine commutes_bind (commutes_modify fun _ => rfl) fun _ => ?_
          exact next_credential_commutes change installation login.sec
    | NEW | TLS | AUTH | READY | FAILED | CLOSED =>
        dsimp only
        exact stays machine

omit [Exchange Body] in
/-- What a response does to its stream does not depend on the cursor it came
through, and the cursor it answers with only on that cursor. -/
theorem on_response_commutes (header : ResponseHeader) (body : Bytes) (pending : Pending)
    (framer other : Framer) (machine : Machine Body) :
    onResponse header body pending other (relink change machine) =
      match onResponse header body pending framer machine with
      | .ok _ machine => .ok (schedule header body other) (relink change machine)
      | .error error machine => .error error (relink change machine) := by
  unfold onResponse
  by_cases status : header.status = kXR_status
  · rw [schedule, if_pos status]
    simp only [status, show ¬kXR_status = kXR_ok by decide, show ¬kXR_status = kXR_oksofar by decide,
      show ¬kXR_status = kXR_error by decide, show ¬kXR_status = kXR_redirect by decide,
      show ¬kXR_status = kXR_wait by decide, show ¬kXR_status = kXR_waitresp by decide, if_false,
      if_true, run_bind]
    cases parseStatus body with
    | error error => rfl
    | ok info =>
        simp only [attempt_ok, run_modify]
        split_ifs
        · rfl
        · simp only [run_bind, run_modify, run_pure]
          rw [← on_status_data_relink]
          rfl
  · rw [schedule, if_neg status, if_neg status, if_neg status]
    split_ifs
    · simp only [run_bind, run_modify, run_pure, release_relink]
      rfl
    · rfl
    · simp only [run_bind]
      cases parseError body with
      | error error => rfl
      | ok info =>
          simp only [attempt_ok, run_modify, run_pure, release_relink]
          rfl
    · simp only [run_bind]
      cases parseRedirect body <;> rfl
    · simp only [run_bind]
      cases parseWait body <;> rfl
    · simp only [run_bind]
      cases parseWaitresp body <;> rfl
    · simp only [run_bind, run_modify, run_pure, release_relink]
      rfl

end BringUp

end Machine

end XRootDClient.Proto

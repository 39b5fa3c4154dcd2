import XRootDClient.Proto.Streams

/-!
# The cursor of a link

What a turn does to the cursor of the link it is taken on: it waits, or it takes
the raw data or the frame that is next, and a `kXR_status` for a stream in
flight schedules the data behind it. No turn touches the cursor of another link,
and every turn that goes on brings its own cursor closer to the end of what has
been received.
-/

set_option autoImplicit false

namespace XRootDClient.Proto.Machine

open Lib Lib.BigEndian Lib.Stateful Lib.Run Auth

variable {Body : Type}

def schedule (header : ResponseHeader) (body : Bytes) (framer : Framer) : Framer :=
  if header.status = kXR_status then
    match parseStatus body with
    | .ok info =>
        if info.dlen ≠ 0 then
          { framer with needTrailer := info.dlen, trailerFor := some header.streamid }
        else framer
    | .error _ => framer
  else framer

theorem on_response_schedules (header : ResponseHeader) (body : Bytes) (pending : Pending)
    (framer : Framer) (machine : Machine Body) :
    (outcome framer (onResponse header body pending framer machine)).2 =
      schedule header body framer := by
  unfold onResponse
  by_cases status : header.status = kXR_status
  · rw [schedule, if_pos status]
    rw [if_neg (by simp [status]), if_neg (by simp [status]), if_neg (by simp [status]),
      if_neg (by simp [status]), if_neg (by simp [status]), if_neg (by simp [status]),
      if_pos status, run_bind]
    cases parseStatus body with
    | error error => rfl
    | ok info =>
        simp only [attempt_ok, run_bind, run_modify]
        split_ifs <;> rfl
  · rw [schedule, if_neg status, if_neg status]
    split_ifs
    · rfl
    · rfl
    · rw [run_bind]
      cases parseError body <;> rfl
    · rw [run_bind]
      cases parseRedirect body <;> rfl
    · rw [run_bind]
      cases parseWait body <;> rfl
    · rw [run_bind]
      cases parseWaitresp body <;> rfl
    · rfl

def delivered (header : ResponseHeader) (body : Bytes) (framer : Framer)
    (machine : Machine Body) : Framer :=
  match content header body with
  | .ok (.response inner body) =>
      if machine.state.bringingUp then framer
      else if machine.pending.contains inner.streamid then schedule inner body framer
      else framer
  | _ => framer

theorem delivered_buffer (header : ResponseHeader) (body : Bytes) (framer : Framer)
    (machine : Machine Body) : (delivered header body framer machine).buffer = framer.buffer := by
  unfold delivered schedule
  split
  · split_ifs
    · rfl
    · split
      · split_ifs <;> rfl
      · rfl
    · rfl
    · rfl
  · rfl

theorem on_status_data_cursor (sid : Nat) (data : Bytes) (pathid : Nat) (machine : Machine Body) :
    (onStatusData sid data machine).framer pathid = machine.framer pathid := by
  rw [on_status_data_frame]
  rfl

def cursorAfter (machine : Machine Body) (current : Framer) : Turn → Framer
  | .waits framer => framer
  | .raises _ => current
  | .trailer _ _ framer => framer
  | .frame header body framer => delivered header body framer machine

variable [Exchange Body] (installation : Installation Body)

theorem turn_cursor (pathid : Nat) (machine : Machine Body) :
    (final (turn installation pathid machine)).framer pathid =
      cursorAfter machine (machine.framer pathid) (machine.framer pathid).next := by
  rw [turn_run]
  cases cut : (machine.framer pathid).next with
  | waits framer => exact framer_store_self pathid framer machine
  | raises error => rfl
  | trailer sid data framer =>
      cases sid with
      | none => exact framer_store_self pathid framer machine
      | some sid =>
          simp only [final_ok, on_status_data_cursor]
          exact framer_store_self pathid framer machine
  | frame header body framer =>
      simp only [dispatch_run, cursorAfter]
      unfold delivered
      cases opened : content header body with
      | error error => exact framer_store_self pathid framer machine
      | ok carried =>
          cases carried with
          | notice info => exact framer_store_self pathid framer _
          | response inner body =>
              simp only [respond_run]
              cases waiting : machine.state.bringingUp with
              | true =>
                  rw [if_pos (show (storeFramer pathid framer machine).state.bringingUp = true
                    from waiting), if_pos rfl]
                  have links := (bringup_move installation inner body
                    (storeFramer pathid framer machine) waiting).frame
                  cases ran : Machine.bringup installation inner body
                    (storeFramer pathid framer machine) with
                  | ok value after => exact framer_store_self pathid framer _
                  | error error after =>
                      rw [ran, final_error] at links
                      simp only [final_error]
                      rw [links]
                      exact framer_store_self pathid framer machine
              | false =>
                  rw [if_neg (show ¬(storeFramer pathid framer machine).state.bringingUp = true
                    from by simp [storeFramer, waiting])]
                  simp only [Bool.false_eq_true, if_false,
                    show (storeFramer pathid framer machine).pending = machine.pending from rfl]
                  cases found : machine.pending.get? inner.streamid with
                  | none =>
                      have absent : machine.pending.contains inner.streamid = false := by
                        simp [Dict.contains, found]
                      simp only [absent, Bool.false_eq_true, if_false]
                      exact framer_store_self pathid framer _
                  | some pending =>
                      have present : machine.pending.contains inner.streamid = true := by
                        simp [Dict.contains, found]
                      simp only [present, if_true]
                      have left := on_response_schedules inner body pending framer
                        (storeFramer pathid framer machine)
                      have links := (on_response_move inner body pending framer
                        (storeFramer pathid framer machine)).frame
                      cases ran : onResponse inner body pending framer
                        (storeFramer pathid framer machine) with
                      | ok scheduled after =>
                          rw [ran] at left
                          simp only [final_ok, framer_store_self]
                          exact left
                      | error error after =>
                          rw [ran] at left links
                          simp only [final_error, ← left]
                          rw [show after = _ from links]
                          exact framer_store_self pathid framer machine

omit [Exchange Body] in
theorem framer_store_other {pathid other : Nat} (different : other ≠ pathid) (framer : Framer)
    (machine : Machine Body) : (storeFramer pathid framer machine).framer other =
      machine.framer other := by
  simp only [Machine.framer, storeFramer, Dict.getD, Dict.get_set_other _ different]

theorem TurnMove.cursor_other {installation : Installation Body} {pathid other : Nat}
    {before after : Machine Body} (moved : TurnMove installation pathid before after)
    (different : other ≠ pathid) : after.framer other = before.framer other := by
  cases moved with
  | refused => rfl
  | waited framer | orphan data framer | garbled header body framer
    | unknown outer inner whole body framer | notice header body framer =>
      exact framer_store_other different framer before
  | trailer sid data framer =>
      rw [on_status_data_cursor]
      exact framer_store_other different framer before
  | bringup outer inner whole body framer cut opened waiting ran moved =>
      rw [moved.frame]
      exact framer_store_other different framer before
  | stream outer inner whole body framer left pending cut opened running found moved =>
      rw [framer_store_other different, moved.frame]
      exact framer_store_other different framer before

def Move.touches (pathid : Nat) : Move → Bool
  | .feed _ link | .turn link | .eof link | .forgetPath link => pathid == link
  | _ => false

omit [Exchange Body] in
theorem framer_set_default (link pathid : Nat) (machine : Machine Body) :
    framer { machine with framers := machine.framers.setDefault link {} } pathid =
      machine.framer pathid := by
  simp only [Machine.framer, Dict.getD, Dict.setDefault]
  split_ifs with known
  · rfl
  · by_cases same : pathid = link
    · subst same
      rw [Dict.get_set_self, show machine.framers.get? pathid = none by
        simpa [Dict.contains] using known]
      rfl
    · rw [Dict.get_set_other _ same]

omit [Exchange Body] in
theorem forget_path_cursor_other {link pathid : Nat} (different : pathid ≠ link)
    (machine : Machine Body) :
    (forgetPath link machine).framer pathid = machine.framer pathid := by
  rw [forget_path_frame]
  simp only [Machine.framer, Dict.getD, Dict.get_erase_other _ different]

omit [Exchange Body] in
theorem eof_cursor_other {link pathid : Nat} (different : pathid ≠ link)
    (machine : Machine Body) : (eof link machine).framer pathid = machine.framer pathid := by
  rw [← framer_set_default link pathid machine]
  unfold eof
  dsimp only
  split_ifs
  · unfold onEof
    split_ifs <;> rfl
  · exact forget_path_cursor_other different _

theorem StepMove.cursor_other {installation : Installation Body} {pathid : Nat} {move : Move}
    {before after : Machine Body} (moved : StepMove installation before move after)
    (elsewhere : Move.touches pathid move = false) :
    after.framer pathid = before.framer pathid := by
  cases moved with
  | start moved => cases moved <;> rfl
  | submit moved =>
      cases moved with
      | refused | exhausted | raised => rfl
      | issued =>
          unfold enqueue
          dsimp only
          split_ifs <;> rfl
  | resume moved =>
      cases moved with
      | refused => rfl
      | resent => split <;> rfl
  | close moved => cases moved <;> rfl
  | tlsEstablished moved =>
      cases moved with
      | refused => rfl
      | secured due moved =>
          rw [moved.frame]
          rfl
  | turn moved => exact moved.cursor_other (by simpa [Move.touches] using elsewhere)
  | release streamid =>
      rw [release_frame]
      rfl
  | eof link => exact eof_cursor_other (by simpa [Move.touches] using elsewhere) before
  | forgetPath link =>
      exact forget_path_cursor_other (by simpa [Move.touches] using elsewhere) before
  | feed data link =>
      unfold Machine.feed
      dsimp only
      rw [framer_store_other (by simpa [Move.touches] using elsewhere),
        framer_set_default]
  | dataToSend | pathDataToSend | nextEvent => rfl

omit [Exchange Body] in
@[simp] theorem feed_cursor (data : Bytes) (pathid : Nat) (machine : Machine Body) :
    (feed data pathid machine).framer pathid =
      { machine.framer pathid with buffer := (machine.framer pathid).buffer ++ data } := by
  unfold feed
  dsimp only
  rw [framer_store_self, framer_set_default]

end XRootDClient.Proto.Machine

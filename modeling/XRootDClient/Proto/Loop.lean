import XRootDClient.Proto.Framing
import XRootDClient.Proto.Relink

/-!
# The inbound loop

Nothing the machine does with a frame looks at the cursors of its links, so a
turn on a longer buffer does what it does on a shorter one that already holds
the frame. Every turn after which the loop goes round brings the cursor closer
to the end of its buffer, so the loop is its own first turn and then the loop
again, and the fuel it is given never runs out.
-/

set_option autoImplicit false

namespace XRootDClient.Proto

open Lib Lib.BigEndian Lib.Stateful Lib.Run Auth

namespace Machine

variable {Body : Type}

def extend (pathid : Nat) (more : Bytes) (machine : Machine Body) : Machine Body :=
  storeFramer pathid ((machine.framer pathid).extend more) machine

@[simp] theorem store_store (pathid : Nat) (first second : Framer) (machine : Machine Body) :
    storeFramer pathid second (storeFramer pathid first machine) =
      storeFramer pathid second machine := by
  simp only [storeFramer, Dict.set_set]

@[simp] theorem framer_extend (pathid : Nat) (more : Bytes) (machine : Machine Body) :
    (extend pathid more machine).framer pathid = (machine.framer pathid).extend more :=
  framer_store_self _ _ _

theorem extend_extend (pathid : Nat) (first second : Bytes) (machine : Machine Body) :
    extend pathid second (extend pathid first machine) =
      extend pathid (first ++ second) machine := by
  rw [extend, framer_extend, Framer.extend_extend]
  exact store_store _ _ _ _

theorem feed_extend (data : Bytes) (pathid : Nat) (machine : Machine Body) :
    feed data pathid machine = extend pathid data machine := by
  unfold feed
  dsimp only
  rw [framer_set_default]
  simp only [extend, storeFramer, Dict.setDefault]
  split_ifs
  · rfl
  · rw [Dict.set_set]
    rfl

theorem schedule_extend (header : ResponseHeader) (body more : Bytes) (framer : Framer) :
    schedule header body (framer.extend more) = (schedule header body framer).extend more := by
  unfold schedule
  split_ifs
  · cases parseStatus body with
    | error error => rfl
    | ok info =>
        dsimp only
        split_ifs <;> rfl
  · rfl

section Turns

variable [Exchange Body] (installation : Installation Body)

theorem dispatch_extend (pathid : Nat) (more : Bytes) (header : ResponseHeader) (body : Bytes)
    (framer : Framer) (machine : Machine Body) :
    dispatch installation header body (framer.extend more)
        (storeFramer pathid (framer.extend more) machine) =
      match dispatch installation header body framer (storeFramer pathid framer machine) with
      | .ok left after => .ok (left.extend more) (storeFramer pathid (framer.extend more) after)
      | .error error after => .error error (storeFramer pathid (framer.extend more) after) := by
  rw [dispatch_run, dispatch_run, ← store_store pathid framer]
  cases content header body with
  | error error => rfl
  | ok carried =>
      cases carried with
      | notice info => rfl
      | response inner body =>
          simp only [respond_run]
          rw [show (storeFramer pathid (framer.extend more)
            (storeFramer pathid framer machine)).state = machine.state from rfl,
            show (storeFramer pathid framer machine).state = machine.state from rfl]
          split_ifs
          · have apart := bringup_commutes (fun links => links.set pathid (framer.extend more))
              installation inner body (storeFramer pathid framer machine)
            rw [show storeFramer pathid (framer.extend more) (storeFramer pathid framer machine) =
              relink (fun links => links.set pathid (framer.extend more))
                (storeFramer pathid framer machine) from rfl, apart]
            cases Machine.bringup installation inner body (storeFramer pathid framer machine) <;> rfl
          · rw [show (storeFramer pathid (framer.extend more)
              (storeFramer pathid framer machine)).pending = machine.pending from rfl,
              show (storeFramer pathid framer machine).pending = machine.pending from rfl]
            cases machine.pending.get? inner.streamid with
            | none => rfl
            | some pending =>
                have apart := on_response_commutes
                  (fun links => links.set pathid (framer.extend more)) inner body pending framer
                  (framer.extend more) (storeFramer pathid framer machine)
                have left := on_response_schedules inner body pending framer
                  (storeFramer pathid framer machine)
                dsimp only
                rw [show storeFramer pathid (framer.extend more)
                  (storeFramer pathid framer machine) =
                  relink (fun links => links.set pathid (framer.extend more))
                    (storeFramer pathid framer machine) from rfl, apart, schedule_extend]
                cases ran : onResponse inner body pending framer
                  (storeFramer pathid framer machine) with
                | error error after => rfl
                | ok answered after =>
                    rw [ran] at left
                    rw [← left]
                    rfl

theorem dispatch_links (header : ResponseHeader) (body : Bytes) (framer : Framer)
    (machine : Machine Body) :
    (final (dispatch installation header body framer machine)).framers = machine.framers := by
  rw [dispatch_run]
  cases content header body with
  | error error => rfl
  | ok carried =>
      cases carried with
      | notice info => rfl
      | response inner body =>
          simp only [respond_run]
          split_ifs with waiting
          · have frame := (bringup_move installation inner body machine waiting).frame
            cases ran : Machine.bringup installation inner body machine with
            | ok value after =>
                rw [ran, final_ok] at frame
                simp only [final_ok]
                rw [frame]
            | error error after =>
                rw [ran, final_error] at frame
                simp only [final_error]
                rw [frame]
          · cases machine.pending.get? inner.streamid with
            | none => rfl
            | some pending =>
                have frame := (on_response_move inner body pending framer machine).frame
                dsimp only
                cases ran : onResponse inner body pending framer machine with
                | ok value after =>
                    rw [ran] at frame
                    simp only [final_ok]
                    rw [show after = _ from frame]
                | error error after =>
                    rw [ran] at frame
                    simp only [final_error]
                    rw [show after = _ from frame]

theorem turn_extend (pathid : Nat) (more : Bytes) (machine : Machine Body)
    (steady : (machine.framer pathid).Steady more) :
    match turn installation pathid machine with
    | .ok true after =>
        turn installation pathid (extend pathid more machine) = .ok true (extend pathid more after)
    | .ok false after =>
        turn installation pathid (extend pathid more machine) =
          turn installation pathid (extend pathid more after)
    | .error error after =>
        turn installation pathid (extend pathid more machine) =
          .error error (extend pathid more after) := by
  have longer := turn_run installation pathid (extend pathid more machine)
  rw [framer_extend] at longer
  rw [turn_run installation pathid machine]
  cases cut : (machine.framer pathid).next with
  | waits framer =>
      rw [Framer.next_extend_waits more cut] at longer
      dsimp only
      rw [longer, turn_run, framer_extend, framer_store_self]
      cases found : (framer.extend more).next with
      | raises error =>
          have same := Framer.raises_unmoved more cut found
          simp only [extend, store_store, framer_store_self, same]
      | waits left => simp only [extend, store_store]
      | trailer sid data left => cases sid <;> simp only [extend, store_store]
      | frame header body left => simp only [extend, store_store]
  | raises error =>
      rw [Framer.next_extend_raises more cut] at longer
      exact longer
  | trailer sid data framer =>
      rw [Framer.next_extend_trailer more steady cut] at longer
      cases sid with
      | none =>
          dsimp only
          rw [longer]
          simp only [extend, store_store, framer_store_self]
      | some sid =>
          dsimp only
          rw [longer]
          dsimp only
          have apart := on_status_data_relink
            (fun links => links.set pathid (framer.extend more)) sid data
            (storeFramer pathid framer machine)
          have cursor : (onStatusData sid data (storeFramer pathid framer machine)).framer pathid =
              framer := by
            rw [on_status_data_cursor, framer_store_self]
          rw [extend, extend, cursor, store_store, ← store_store pathid framer]
          exact congrArg _ apart
  | frame header body framer =>
      rw [Framer.next_extend_frame more cut] at longer
      dsimp only at longer ⊢
      rw [longer, extend, store_store, dispatch_extend]
      have links := dispatch_links installation header body framer (storeFramer pathid framer machine)
      cases ran : dispatch installation header body framer (storeFramer pathid framer machine) with
      | ok left after =>
          dsimp only
          simp only [extend, store_store, framer_store_self]
      | error error after =>
          rw [ran, final_error] at links
          have cursor : after.framer pathid = framer := by
            rw [Machine.framer, links]
            exact framer_store_self pathid framer machine
          simp only [extend, cursor]

omit [Exchange Body] in
theorem schedule_distance (header : ResponseHeader) (body : Bytes) (framer : Framer)
    (idle : framer.needTrailer = 0) :
    (schedule header body framer).distance ≤ framer.distance + 1 := by
  unfold schedule
  split_ifs
  · cases parseStatus body with
    | error error => exact Nat.le_succ _
    | ok info =>
        dsimp only
        split_ifs with none
        · simp only [Framer.distance, idle, if_true, if_neg none]
          omega
        · exact Nat.le_succ _
  · exact Nat.le_succ _

omit [Exchange Body] in
theorem delivered_distance (header : ResponseHeader) (body : Bytes) (framer : Framer)
    (machine : Machine Body) (idle : framer.needTrailer = 0) :
    (delivered header body framer machine).distance ≤ framer.distance + 1 := by
  unfold delivered
  split
  · split_ifs
    · exact Nat.le_succ _
    · exact schedule_distance _ _ framer idle
    · exact Nat.le_succ _
  · exact Nat.le_succ _

theorem turn_taken {pathid : Nat} {machine after : Machine Body}
    (gone : turn installation pathid machine = .ok true after) :
    (∃ sid data left, (machine.framer pathid).next = .trailer (some sid) data left ∧
      after = onStatusData sid data (storeFramer pathid left machine)) ∨
    ∃ header body left, (machine.framer pathid).next = .frame header body left ∧
      after.framer pathid = delivered header body left machine := by
  have cursor := turn_cursor installation pathid machine
  rw [gone, final_ok] at cursor
  rw [turn_run] at gone
  cases cut : (machine.framer pathid).next with
  | waits framer => simp [cut] at gone
  | raises error => simp [cut] at gone
  | trailer sid data left =>
      cases sid with
      | none => simp [cut] at gone
      | some sid =>
          rw [cut] at gone
          simp only [EStateM.Result.ok.injEq, true_and] at gone
          exact .inl ⟨sid, data, left, rfl, gone.symm⟩
  | frame header body left =>
      rw [cut] at cursor
      exact .inr ⟨header, body, left, rfl, cursor⟩

theorem turn_closer {pathid : Nat} {machine after : Machine Body}
    (gone : turn installation pathid machine = .ok true after) :
    (after.framer pathid).distance < (machine.framer pathid).distance := by
  rcases turn_taken installation gone with ⟨sid, data, left, cut, rfl⟩ |
    ⟨header, body, left, cut, cursor⟩
  · rw [on_status_data_cursor, framer_store_self]
    exact Framer.trailer_closer cut
  · rw [cursor]
    have idle := (Framer.frame_left cut).2.2.1
    have closer := Framer.frame_closer cut
    have near := delivered_distance header body left machine idle
    omega

theorem parse_enough (pathid : Nat) {first second : Nat} {machine : Machine Body}
    (one : (machine.framer pathid).distance < first)
    (two : (machine.framer pathid).distance < second) :
    parse installation pathid first machine = parse installation pathid second machine := by
  induction first generalizing second machine with
  | zero => omega
  | succ first induction =>
      cases second with
      | zero => omega
      | succ second =>
          rw [parse, parse, run_bind, run_bind]
          cases gone : turn installation pathid machine with
          | error error after => rfl
          | ok more after =>
              cases more with
              | false => rfl
              | true =>
                  have closer := turn_closer installation gone
                  exact induction (by omega) (by omega)

def loop (pathid : Nat) : Act Body Unit := fun machine =>
  parse installation pathid (parseFuel (machine.framer pathid)) machine

omit [Exchange Body] in
theorem distance_fuel (framer : Framer) : framer.distance < parseFuel framer := by
  simp only [Framer.distance, parseFuel]
  split_ifs <;> omega

/-- The loop takes a turn and goes round as long as the turn says so: the fuel
never runs out. -/
theorem loop_turn (pathid : Nat) (machine : Machine Body) :
    loop installation pathid machine = match turn installation pathid machine with
      | .ok true after => loop installation pathid after
      | .ok false after => .ok () after
      | .error error after => .error error after := by
  unfold loop
  rw [show parseFuel (machine.framer pathid) = 2 * (machine.framer pathid).buffer.length + 3 + 1
    from rfl, parse, run_bind]
  cases gone : turn installation pathid machine with
  | error error after => rfl
  | ok more after =>
      cases more with
      | false => rfl
      | true =>
          have closer := turn_closer installation gone
          have near := distance_fuel (machine.framer pathid)
          simp only [parseFuel] at near
          exact parse_enough installation pathid (by omega) (distance_fuel _)

theorem receive_data_loop {data : Bytes} (some : data ≠ []) (pathid : Nat)
    (machine : Machine Body) :
    receiveData installation data pathid machine =
      loop installation pathid (extend pathid data machine) := by
  rw [receive_data_run, if_neg some, feed_extend]
  rfl

end Turns

end Machine

end XRootDClient.Proto

import XRootDClient.Proto.Loop

/-!
# Received in one piece or in many

Cutting what is received changes nothing, with one exception: a `kXR_status` may
declare a negative length, and the cursor takes all but that many bytes of
whatever it happens to hold. Where no turn does that, all ways of cutting agree;
where one does, taking the last byte apart tells the difference.
-/

set_option autoImplicit false

namespace XRootDClient.Proto

open Lib Lib.BigEndian Lib.Stateful Lib.Run Auth

namespace Machine

variable {Body : Type}

section Turns

variable [Exchange Body] (installation : Installation Body)

/-- The link is about to take all but so many bytes, and holds more than those. -/
def Overrun (pathid : Nat) (machine : Machine Body) : Prop :=
  (machine.framer pathid).needTrailer < 0 ∧
    (-(machine.framer pathid).needTrailer).toNat < (machine.framer pathid).buffer.length

instance (pathid : Nat) (machine : Machine Body) : Decidable (Overrun pathid machine) :=
  inferInstanceAs (Decidable (_ ∧ _))

def Calm (pathid : Nat) : Nat → Machine Body → Prop
  | 0, _ => True
  | fuel + 1, machine =>
      ¬Overrun pathid machine ∧ match turn installation pathid machine with
        | .ok true after => Calm pathid fuel after
        | _ => True

theorem calm_history (pathid fuel : Nat) (machine : Machine Body) :
    Calm installation pathid fuel machine ↔
      ∀ entry ∈ history (step installation)
        (List.replicate (turnsTaken installation pathid fuel machine) (.turn pathid)) machine,
        ¬Overrun pathid entry.before := by
  induction fuel generalizing machine with
  | zero => simp [Calm, turnsTaken, history]
  | succ fuel induction =>
      rw [Calm, turnsTaken]
      cases gone : turn installation pathid machine with
      | error error after => simp [history, step]
      | ok goes after =>
          cases goes with
          | false => simp [history, step]
          | true =>
              simp only [List.replicate_succ, history, step, gone, final_ok, List.mem_cons,
                forall_eq_or_imp, induction after]

omit [Exchange Body] in
theorem steady_of_calm {pathid : Nat} {more : Bytes} {machine : Machine Body}
    (calm : ¬Overrun pathid (extend pathid more machine)) :
    (machine.framer pathid).Steady more := by
  simp only [Overrun, framer_extend, Framer.extend, List.length_append, not_and, not_lt] at calm
  by_cases positive : 0 ≤ (machine.framer pathid).needTrailer
  · exact .inl positive
  · exact .inr (calm (by omega))

theorem waits_positive {pathid : Nat} {machine after : Machine Body}
    (waits : turn installation pathid machine = .ok false after) :
    ∃ left, (machine.framer pathid).next = .waits left ∧
      after = storeFramer pathid left machine ∧ 0 ≤ left.needTrailer := by
  rw [turn_run] at waits
  cases cut : (machine.framer pathid).next with
  | raises error => simp [cut] at waits
  | trailer sid data left => cases sid <;> simp [cut] at waits
  | frame header body left =>
      rw [cut] at waits
      dsimp only at waits
      split at waits <;> simp at waits
  | waits left =>
      rw [cut] at waits
      simp only [EStateM.Result.ok.injEq, true_and] at waits
      refine ⟨left, rfl, waits.symm, ?_⟩
      have stand := (machine.framer pathid).next_stand
      generalize (machine.framer pathid).next = found at stand cut
      cases stand with
      | collecting due short =>
          cases cut
          omega
      | outside idle =>
          cases cut
          exact Int.le_of_eq idle.symm
      | collected | refused => cases cut
      | inside header idle =>
          rw [Framer.take_body_waits cut]
          exact Int.le_of_eq idle.symm
      | opening header idle =>
          rw [Framer.take_body_waits cut]
          exact Int.le_of_eq idle.symm

theorem loop_extend (pathid : Nat) (more : Bytes) (fuel : Nat) (machine : Machine Body)
    (near : ((extend pathid more machine).framer pathid).distance < fuel)
    (calm : Calm installation pathid fuel (extend pathid more machine)) :
    match loop installation pathid machine with
    | .ok _ after =>
        loop installation pathid (extend pathid more machine) =
          loop installation pathid (extend pathid more after) ∧
        ∃ fuel, ((extend pathid more after).framer pathid).distance < fuel ∧
          Calm installation pathid fuel (extend pathid more after)
    | .error error after =>
        loop installation pathid (extend pathid more machine) =
          .error error (extend pathid more after) := by
  induction fuel generalizing machine with
  | zero => omega
  | succ fuel induction =>
      obtain ⟨here, later⟩ := calm
      have same := turn_extend installation pathid more machine (steady_of_calm here)
      rw [loop_turn installation pathid machine]
      cases gone : turn installation pathid machine with
      | error error after =>
          rw [gone] at same
          dsimp only at same ⊢
          rw [loop_turn, same]
      | ok goes after =>
          rw [gone] at same
          cases goes with
          | true =>
              dsimp only at same ⊢
              rw [same] at later
              have closer := turn_closer installation same
              rw [loop_turn installation pathid (extend pathid more machine), same]
              exact induction after (by omega) later
          | false =>
              dsimp only at same ⊢
              obtain ⟨left, cut, rfl, positive⟩ := waits_positive installation gone
              refine ⟨?_, ?_⟩
              · rw [loop_turn, same, ← loop_turn]
              · rw [same] at later
                have shorter := Framer.waits_distance more cut
                refine ⟨fuel + 1, ?_, ?_, later⟩
                · rw [framer_extend] at near ⊢
                  rw [framer_store_self]
                  omega
                · rw [Overrun, framer_extend, framer_store_self]
                  exact fun overrun => absurd positive (Int.not_le.mpr overrun.1)

/-- Feeds pieces one after another; the first that raises ends it. -/
def receiveAll : List Bytes → Nat → Act Body Unit
  | [], _ => pure ()
  | piece :: rest, pathid => do
      receiveData installation piece pathid
      receiveAll rest pathid

/-- Both raise, having queued the same events first, or neither raises and they
leave the same machine. -/
inductive Agree : EStateM.Result Exception (Machine Body) Unit →
    EStateM.Result Exception (Machine Body) Unit → Prop
  | returned (machine : Machine Body) : Agree (.ok () machine) (.ok () machine)
  | raised {one two : Machine Body} (first second : Exception) (same : one.events = two.events) :
      Agree (.error first one) (.error second two)

omit [Exchange Body] in
theorem agree_refl (result : EStateM.Result Exception (Machine Body) Unit) :
    Agree result result := by
  cases result with
  | ok value machine => exact .returned machine
  | error error machine => exact .raised error error rfl

omit [Exchange Body] in
theorem Agree.events {one two : EStateM.Result Exception (Machine Body) Unit}
    (agree : Agree one two) : (final one).events = (final two).events := by
  cases agree with
  | returned machine => rfl
  | raised first second same => exact same

theorem pieces_agree (pathid : Nat) (pieces : List Bytes) (whole : pieces ≠ [])
    (full : ∀ piece ∈ pieces, piece ≠ []) (fuel : Nat) (machine : Machine Body)
    (near : ((extend pathid pieces.flatten machine).framer pathid).distance < fuel)
    (calm : Calm installation pathid fuel (extend pathid pieces.flatten machine)) :
    Agree (receiveAll installation pieces pathid machine)
      (loop installation pathid (extend pathid pieces.flatten machine)) := by
  induction pieces generalizing fuel machine with
  | nil => exact absurd rfl whole
  | cons piece rest induction =>
      rw [receiveAll, run_bind, receive_data_loop installation (full piece (by simp))]
      cases rest with
      | nil =>
          rw [List.flatten_cons, List.flatten_nil, List.append_nil]
          cases loop installation pathid (extend pathid piece machine) <;> exact agree_refl _
      | cons next others =>
          rw [List.flatten_cons, ← extend_extend] at near calm ⊢
          have both := loop_extend installation pathid _ fuel _ near calm
          cases first : loop installation pathid (extend pathid piece machine) with
          | error error after =>
              rw [first] at both
              dsimp only at both ⊢
              rw [both]
              exact .raised error error rfl
          | ok value after =>
              rw [first] at both
              obtain ⟨same, fuel, near, calm⟩ := both
              rw [same]
              exact induction (by simp) (fun other member => full other (by simp [member]))
                fuel after near calm

theorem turns_events (pathid count : Nat) (machine : Machine Body) :
    ∃ events, (run (step installation) (List.replicate count (.turn pathid)) machine).events =
      machine.events ++ events := by
  induction count generalizing machine with
  | zero => exact ⟨[], (List.append_nil _).symm⟩
  | succ count induction =>
      obtain ⟨first, reports⟩ := (turn_move installation pathid machine).reports
      obtain ⟨later, grown⟩ := induction (final (turn installation pathid machine))
      refine ⟨first ++ later, ?_⟩
      rw [List.replicate_succ, run, ← List.append_assoc, ← reports.queued]
      exact grown

theorem loop_events (pathid : Nat) (machine : Machine Body) :
    ∃ events, (final (loop installation pathid machine)).events = machine.events ++ events := by
  rw [loop, parse_run]
  exact turns_events installation pathid _ machine

/-- A stream in flight waits for the data of negative length. -/
def Armed (pathid : Nat) (machine : Machine Body) : Prop :=
  (machine.framer pathid).needTrailer < 0 → ∃ sid pending info,
    (machine.framer pathid).trailerFor = some sid ∧
    machine.pending.get? sid = some pending ∧ pending.status = some info

theorem turn_armed {pathid : Nat} {machine after : Machine Body}
    (gone : turn installation pathid machine = .ok true after) : Armed pathid after := by
  have moved := turn_move installation pathid machine
  rw [gone, final_ok] at moved
  rcases turn_taken installation gone with ⟨sid, data, left, cut, rfl⟩ |
    ⟨header, body, left, cut, -⟩
  · intro negative
    rw [on_status_data_cursor, framer_store_self, (Framer.trailer_left cut).2.2.1] at negative
    omega
  · have idle := (Framer.frame_left cut).2.2.1
    have stored : ∀ machine : Machine Body, machine.framer pathid = left → Armed pathid machine := by
      intro machine cursor negative
      rw [cursor, idle] at negative
      omega
    cases moved with
    | refused error other | waited _ other | orphan _ _ other | trailer _ _ _ other =>
        rw [cut] at other
        cases other
    | garbled _ _ framer _ other | notice _ _ framer _ other | unknown _ _ _ _ framer other =>
        rw [cut] at other
        cases other
        exact stored _ (framer_store_self pathid _ _)
    | bringup _ _ _ _ framer other opened waiting ran moved =>
        rw [cut] at other
        cases other
        refine stored _ ?_
        rw [moved.frame]
        exact framer_store_self pathid _ _
    | stream _ inner _ body framer scheduled pending other opened running found moved =>
        rw [cut] at other
        cases other
        cases moved with
        | collecting info status parsed long =>
            intro negative
            refine ⟨inner.streamid, { pending with status := some info }, info, ?_, ?_, rfl⟩
            · rw [framer_store_self]
            · simp [storeFramer, updatePending]
        | raised | completed | chunk | failed | unexpected | redirected | waiting | settled =>
            exact stored _ (framer_store_self pathid _ _)

def told (sid : Nat) (pending : Pending) (info : StatusInfo) (data : Bytes) : Event :=
  if info.isFinal then .completed sid pending.request (pending.buffer ++ data) (some info)
  else .chunk sid pending.request data

omit [Exchange Body] in
theorem on_status_data_told {sid : Nat} {pending : Pending} {info : StatusInfo}
    {machine : Machine Body} (found : machine.pending.get? sid = some pending)
    (status : pending.status = some info) (data : Bytes) :
    (onStatusData sid data machine).events = machine.events ++ [told sid pending info data] := by
  simp only [onStatusData, found, status, told]
  split_ifs
  · rw [release_frame]
    rfl
  · rfl

omit [Exchange Body] in
theorem told_injective {sid : Nat} {pending : Pending} {info : StatusInfo} {one two : Bytes}
    (same : told sid pending info one = told sid pending info two) : one = two := by
  unfold told at same
  split_ifs at same
  · simpa using same
  · simpa using same

def Diverge (one two : List Event) : Prop :=
  ∃ common first second more other,
    one = common ++ first :: more ∧ two = common ++ second :: other ∧ first ≠ second

omit [Exchange Body] in
theorem Diverge.grows {one two : List Event} (diverge : Diverge one two) (more : List Event) :
    Diverge one (two ++ more) := by
  obtain ⟨common, first, second, rest, other, left, right, differ⟩ := diverge
  exact ⟨common, first, second, rest, other ++ more, left, by rw [right]; simp, differ⟩

omit [Exchange Body] in
theorem Diverge.ne {one two : List Event} (diverge : Diverge one two) : one ≠ two := by
  obtain ⟨common, first, second, rest, other, left, right, differ⟩ := diverge
  intro same
  rw [left, right] at same
  have heads := List.append_cancel_left same
  rw [List.cons.injEq] at heads
  exact differ heads.1

theorem turn_shorter {pathid : Nat} {machine after : Machine Body}
    (gone : turn installation pathid machine = .ok true after) :
    (after.framer pathid).buffer.length ≤ (machine.framer pathid).buffer.length := by
  rcases turn_taken installation gone with ⟨sid, data, left, cut, rfl⟩ |
    ⟨header, body, left, cut, cursor⟩
  · rw [on_status_data_cursor, framer_store_self]
    exact (Framer.trailer_left cut).2.2.2.2.1
  · rw [cursor, delivered_buffer]
    exact (Framer.frame_left cut).2.2.2.1

theorem calm_of_empty (pathid fuel : Nat) (machine : Machine Body)
    (empty : (machine.framer pathid).buffer.length = 0) :
    Calm installation pathid fuel machine := by
  induction fuel generalizing machine with
  | zero => trivial
  | succ fuel induction =>
      refine ⟨fun overrun => ?_, ?_⟩
      · have more := overrun.2
        omega
      · split
        · next after gone =>
            have shorter := turn_shorter installation gone
            exact induction after (by omega)
        · trivial

/-- The last byte of what is received moves the data that a negative length
leaves over. -/
theorem overrun_diverges (pathid : Nat) (last : UInt8) {machine : Machine Body}
    (armed : Armed pathid (extend pathid [last] machine))
    (overrun : Overrun pathid (extend pathid [last] machine)) :
    Diverge (final (loop installation pathid (extend pathid [last] machine))).events
      (final (loop installation pathid machine)).events := by
  obtain ⟨negative, longer⟩ := overrun
  obtain ⟨sid, pending, info, routed, found, status⟩ := armed negative
  simp only [framer_extend, Framer.extend, List.length_append, List.length_singleton]
    at negative longer routed
  have takes : ∀ framer : Framer, framer.needTrailer < 0 → framer.trailerFor = some sid →
      framer.next = .trailer (some sid)
        (framer.buffer.take (framer.buffer.length - (-framer.needTrailer).toNat))
        { framer with
          buffer := framer.buffer.drop (framer.buffer.length - (-framer.needTrailer).toNat)
          needTrailer := 0
          trailerFor := none } := by
    intro framer below held
    rw [Framer.next, if_pos (by omega), if_neg (by omega), held, sliceTo, sliceFrom,
      if_neg (by omega), if_neg (by omega)]
  have events : ∀ reached : Machine Body, (reached.framer pathid).needTrailer < 0 →
      (reached.framer pathid).trailerFor = some sid → reached.pending.get? sid = some pending →
      ∃ later, (final (loop installation pathid reached)).events = reached.events ++
        told sid pending info ((reached.framer pathid).buffer.take
          ((reached.framer pathid).buffer.length -
            (-(reached.framer pathid).needTrailer).toNat)) :: later := by
    intro reached below held known
    rw [loop_turn, turn_run, takes _ below held]
    obtain ⟨later, grown⟩ := loop_events installation pathid (onStatusData sid _
      (storeFramer pathid _ reached))
    refine ⟨later, ?_⟩
    dsimp only
    rw [grown, on_status_data_told (show (storeFramer pathid _ reached).pending.get? sid = _
      from known) status, List.append_assoc]
    rfl
  obtain ⟨rest, whole⟩ := events (extend pathid [last] machine) (by simpa [Framer.extend] using negative)
    (by simpa [Framer.extend] using routed) found
  obtain ⟨other, cut⟩ := events machine negative routed found
  refine ⟨machine.events, _, _, rest, other, whole, cut, fun same => ?_⟩
  have lengths := congrArg List.length (told_injective same)
  simp only [framer_extend, Framer.extend, List.length_take, List.length_append,
    List.length_singleton] at lengths
  omega

theorem cut_diverges (pathid : Nat) (last : UInt8) (fuel : Nat) (machine : Machine Body)
    (armed : Armed pathid (extend pathid [last] machine))
    (restless : ¬Calm installation pathid fuel (extend pathid [last] machine)) :
    Diverge (final (loop installation pathid (extend pathid [last] machine))).events
      (final (loop installation pathid machine)).events := by
  induction fuel generalizing machine with
  | zero => exact absurd trivial restless
  | succ fuel induction =>
      by_cases overrun : Overrun pathid (extend pathid [last] machine)
      · exact overrun_diverges installation pathid last armed overrun
      have same := turn_extend installation pathid [last] machine (steady_of_calm overrun)
      rw [Calm, not_and] at restless
      have later := restless overrun
      cases longer : turn installation pathid (extend pathid [last] machine) with
      | error error after => simp [longer] at later
      | ok goes reached =>
          cases goes with
          | false => simp [longer] at later
          | true =>
              rw [longer] at later
              dsimp only at later
              have next := turn_armed installation longer
              cases gone : turn installation pathid machine with
              | error error after =>
                  rw [gone, longer] at same
                  cases same
              | ok goes after =>
                  rw [gone, longer] at same
                  cases goes with
                  | true =>
                      simp only [EStateM.Result.ok.injEq, true_and] at same
                      subst same
                      rw [loop_turn installation pathid (extend pathid [last] machine), longer,
                        loop_turn installation pathid machine, gone]
                      exact induction after next later
                  | false =>
                      -- the shorter cursor waits, so the longer one is left with nothing
                      exfalso
                      obtain ⟨left, cut, -, -⟩ := waits_positive installation gone
                      apply later
                      apply calm_of_empty
                      have short : (reached.framer pathid).buffer.length < [last].length := by
                        rcases turn_taken installation longer with ⟨sid, data, kept, takes, rfl⟩ |
                          ⟨header, body, kept, takes, cursor⟩
                        · rw [on_status_data_cursor, framer_store_self]
                          rw [framer_extend] at takes
                          exact Framer.waits_late cut (.inr ⟨_, _, takes⟩)
                        · rw [cursor, delivered_buffer]
                          rw [framer_extend] at takes
                          exact Framer.waits_late cut (.inl ⟨_, _, takes⟩)
                      simpa using short

def Settled (machine : Machine Body) : Prop :=
  ∀ pathid, 0 ≤ (machine.framer pathid).needTrailer

theorem raised_settled {pathid : Nat} {machine after : Machine Body} {error : Exception}
    (raises : turn installation pathid machine = .error error after) :
    (after.framer pathid).needTrailer = 0 := by
  rw [turn_run] at raises
  cases cut : (machine.framer pathid).next with
  | waits left => simp [cut] at raises
  | raises error =>
      simp only [cut, EStateM.Result.error.injEq] at raises
      rw [← raises.2]
      have stand := (machine.framer pathid).next_stand
      generalize (machine.framer pathid).next = found at stand cut
      cases stand with
      | collecting | collected | outside => cases cut
      | inside | opening => exact absurd cut Framer.take_body_not_raises
      | refused _ idle => exact idle
  | trailer sid data left =>
      cases sid with
      | some sid => simp [cut] at raises
      | none =>
          simp only [cut, EStateM.Result.error.injEq] at raises
          rw [← raises.2, framer_store_self]
          exact (Framer.trailer_left cut).2.2.1
  | frame header body left =>
      have links := dispatch_links installation header body left (storeFramer pathid left machine)
      rw [cut] at raises
      dsimp only at raises
      cases ran : dispatch installation header body left (storeFramer pathid left machine) with
      | ok value reached => simp [ran] at raises
      | error other reached =>
          simp only [ran, EStateM.Result.error.injEq] at raises
          rw [ran, final_error] at links
          rw [← raises.2, Machine.framer, links]
          rw [show (storeFramer pathid left machine).framers.getD pathid {} = left from
            framer_store_self pathid left machine]
          exact (Framer.frame_left cut).2.2.1

theorem loop_settled (pathid distance : Nat) (machine : Machine Body)
    (near : (machine.framer pathid).distance < distance) :
    0 ≤ ((final (loop installation pathid machine)).framer pathid).needTrailer := by
  induction distance generalizing machine with
  | zero => omega
  | succ distance induction =>
      rw [loop_turn]
      cases gone : turn installation pathid machine with
      | error error after => exact Int.le_of_eq (raised_settled installation gone).symm
      | ok goes after =>
          cases goes with
          | true =>
              have closer := turn_closer installation gone
              exact induction after (by omega)
          | false =>
              obtain ⟨left, -, rfl, positive⟩ := waits_positive installation gone
              rw [final_ok, framer_store_self]
              exact positive

theorem loop_cursor_other {pathid other : Nat} (different : other ≠ pathid)
    (machine : Machine Body) :
    (final (loop installation pathid machine)).framer other = machine.framer other := by
  rw [loop, parse_run]
  generalize turnsTaken installation pathid _ machine = count
  induction count generalizing machine with
  | zero => rfl
  | succ count induction =>
      rw [List.replicate_succ, run, induction]
      exact (turn_move installation pathid machine).cursor_other different

omit [Exchange Body] in
theorem forget_path_settled (pathid : Nat) {machine : Machine Body} (settled : Settled machine) :
    Settled (forgetPath pathid machine) := by
  intro other
  by_cases same : other = pathid
  · subst same
    rw [forget_path_frame]
    simp [Machine.framer, Dict.getD]
  · rw [forget_path_cursor_other same]
    exact settled other

omit [Exchange Body] in
theorem eof_settled (pathid : Nat) {machine : Machine Body} (settled : Settled machine) :
    Settled (eof pathid machine) := by
  have still : Settled { machine with framers := machine.framers.setDefault pathid {} } := by
    intro other
    rw [framer_set_default]
    exact settled other
  unfold eof
  dsimp only
  split_ifs
  · unfold onEof
    split_ifs
    · exact still
    · exact still
  · exact forget_path_settled pathid still

theorem perform_settled (call : Call) (machine : Machine Body) (settled : Settled machine) :
    Settled (perform installation call machine) := by
  have elsewhere : ∀ move, (∀ pathid, Move.touches pathid move = false) →
      Settled (step installation move machine) := by
    intro move untouched pathid
    rw [(step_move installation move machine).cursor_other (untouched pathid)]
    exact settled pathid
  cases call with
  | receiveData data pathid =>
      simp only [perform]
      by_cases none : data = []
      · rw [receive_data_run, if_pos none]
        exact eof_settled pathid settled
      · rw [receive_data_loop installation none]
        intro other
        by_cases same : other = pathid
        · subst same
          exact loop_settled installation other _ _ (Nat.lt_succ_self _)
        · rw [loop_cursor_other installation same, extend, framer_store_other same]
          exact settled other
  | forgetPath pathid => exact forget_path_settled pathid settled
  | start => exact elsewhere .start fun _ => rfl
  | submit request path arriveOnPath =>
      exact elsewhere (.submit request path arriveOnPath) fun _ => rfl
  | resume streamid => exact elsewhere (.resume streamid) fun _ => rfl
  | release streamid => exact elsewhere (.release streamid) fun _ => rfl
  | close graceful => exact elsewhere (.close graceful) fun _ => rfl
  | tlsEstablished => exact elsewhere .tlsEstablished fun _ => rfl
  | dataToSend | pathDataToSend | nextEvent => exact settled

theorem after_settled (calls : List Call) (machine : Machine Body) (settled : Settled machine) :
    Settled (after installation calls machine) := by
  induction calls generalizing machine with
  | nil => exact settled
  | cons call rest induction => exact induction _ (perform_settled installation call machine settled)

theorem receive_data_calm (data : Bytes) (some : data ≠ []) (pathid : Nat)
    (machine : Machine Body) :
    (∀ entry ∈ traced installation [.receiveData data pathid] machine,
      entry.label = .turn pathid → ¬Overrun pathid entry.before) ↔
    Calm installation pathid (parseFuel ((extend pathid data machine).framer pathid))
      (extend pathid data machine) := by
  rw [calm_history]
  have shape : traced installation [.receiveData data pathid] machine =
      ⟨machine, .feed data pathid, extend pathid data machine⟩ ::
        history (step installation) (List.replicate (turnsTaken installation pathid
          (parseFuel ((extend pathid data machine).framer pathid)) (extend pathid data machine))
          (.turn pathid)) (extend pathid data machine) := by
    simp only [traced, movesOf, moves, if_neg some, List.append_nil, history, step, feed_extend]
  rw [shape]
  constructor
  · intro calm entry member
    refine calm entry (List.mem_cons_of_mem _ member) ?_
    obtain ⟨first, second, labels, -, -⟩ := mem_history _ member
    have listed : entry.label ∈ List.replicate (turnsTaken installation pathid
        (parseFuel ((extend pathid data machine).framer pathid)) (extend pathid data machine))
        (Move.turn pathid) := by
      rw [labels]
      simp
    exact List.eq_of_mem_replicate listed
  · intro calm entry member turned
    rcases List.mem_cons.mp member with rfl | later
    · cases turned
    · exact calm entry later

omit [Exchange Body] in
theorem one_piece {pieces : List Bytes} {data : Bytes} (full : ∀ piece ∈ pieces, piece ≠ [])
    (whole : pieces.flatten = data) (one : data.length = 1) : pieces = [data] := by
  have positive : ∀ piece ∈ pieces, 0 < piece.length := fun piece member =>
    List.length_pos_iff.mpr (full piece member)
  cases pieces with
  | nil =>
      rw [← whole] at one
      cases one
  | cons first rest =>
      cases rest with
      | nil => simpa using whole
      | cons second others =>
          have left := positive first (by simp)
          have right := positive second (by simp)
          rw [← whole] at one
          simp only [List.flatten_cons, List.length_append] at one
          omega

/-- For every machine a run can reach, every link and everything that can be
received on it: all ways of cutting it into pieces agree with receiving it at
once, exactly when there is nothing to cut or no turn is an overrun, that is, no
`kXR_status` for a stream in flight declares a length `-k` with more than `k`
bytes received behind it. -/
theorem chunks_agree_iff (host : Text) (port : Nat) (config : Config)
    (credentials : Option (List (Credential Body))) (username : Text) (wantTls : Bool)
    (bindTo : Bytes) (calls : List Call) (pathid : Nat) (data : Bytes) (some : data ≠ []) :
    let machine := after installation calls
      (new host port config credentials username wantTls bindTo)
    (∀ pieces : List Bytes, (∀ piece ∈ pieces, piece ≠ []) → pieces.flatten = data →
      Agree (receiveAll installation pieces pathid machine)
        (receiveData installation data pathid machine)) ↔
    (data.length = 1 ∨ ∀ entry ∈ traced installation [.receiveData data pathid] machine,
      entry.label = .turn pathid → ¬Overrun pathid entry.before) := by
  intro machine
  have settled : Settled machine :=
    after_settled installation calls _ fun other => by
      by_cases control : other = 0
      · subst control
        exact Int.le_refl 0
      · simp [Machine.framer, new, Dict.getD, Dict.get_set_other _ control]
  rw [receive_data_calm installation data some, receive_data_loop installation some]
  constructor
  · intro agree
    by_contra neither
    rw [not_or] at neither
    obtain ⟨several, restless⟩ := neither
    have split := List.dropLast_concat_getLast some
    have front : data.dropLast ≠ [] := by
      intro empty
      rw [empty] at split
      exact several (by rw [← split]; rfl)
    have agreed := agree [data.dropLast, [data.getLast some]]
      (by simp [front]) (by simpa using split)
    rw [← split, ← extend_extend] at restless
    have armed : Armed pathid
        (extend pathid [data.getLast some] (extend pathid data.dropLast machine)) := by
      intro negative
      have positive := settled pathid
      simp only [framer_extend, Framer.extend] at negative
      omega
    have diverge := cut_diverges installation pathid (data.getLast some) _ _ armed restless
    rw [extend_extend, split] at diverge
    rw [receiveAll, run_bind, receive_data_loop installation front] at agreed
    cases first : loop installation pathid (extend pathid data.dropLast machine) with
    | error error reached =>
        rw [first] at agreed diverge
        exact diverge.ne agreed.events.symm
    | ok value reached =>
        rw [first] at agreed diverge
        dsimp only at agreed
        obtain ⟨later, grown⟩ := loop_events installation pathid
          (extend pathid [data.getLast some] reached)
        have longer := diverge.grows later
        rw [show (final (EStateM.Result.ok value reached)).events ++ later = _ from grown.symm]
          at longer
        rw [receiveAll, run_bind, receive_data_loop installation (by simp)] at agreed
        have same := agreed.events
        cases second : loop installation pathid (extend pathid [data.getLast some] reached) with
        | ok value two =>
            rw [second] at same longer
            exact longer.ne same.symm
        | error error two =>
            rw [second] at same longer
            exact longer.ne same.symm
  · intro fine pieces full whole
    have pieced : pieces ≠ [] := by
      intro none
      rw [none] at whole
      exact some whole.symm
    rcases fine with one | calm
    · have same : pieces = [data] := one_piece full whole one
      rw [same, receiveAll, run_bind, receive_data_loop installation some]
      cases loop installation pathid (extend pathid data machine) <;> exact agree_refl _
    · rw [← whole] at calm ⊢
      exact pieces_agree installation pathid pieces pieced full _ machine (distance_fuel _) calm

end Turns

def pageCalls : List Call :=
  [.start, .receiveData (greets 1 [] ++ admits []) 0, .dataToSend,
    .submit (Request.PgRead [] 0 8 false 0) [] false]

def pageMachine : Machine OneShot :=
  after (Installation.bare OneShot) pageCalls (new (str "data") DEFAULT_PORT {} none [] false [])

/-- The status frame of the answer, with the length it declares. -/
def pageStatus (dlen : Int) : Bytes :=
  response firstSid kXR_status (paged firstSid kXR_FinalResult dlen)

/-- A paged read is answered with a `kXR_status` that declares the length -1, and
two bytes follow: at once they are one byte of data and one byte left over, cut
behind the status there is no data and two bytes are left over. -/
theorem negative_length_tells :
    ¬Agree (receiveAll (Installation.bare OneShot) [pageStatus (-1), [1, 2]] 0 pageMachine)
      (receiveData (Installation.bare OneShot) (pageStatus (-1) ++ [1, 2]) 0 pageMachine) := by
  intro agree
  have same := congrArg List.getLast? agree.events
  revert same
  decide +kernel

theorem positive_length_agrees :
    pageStatus 2 ++ [1, 2] ≠ [] ∧
    ∀ pieces : List Bytes, (∀ piece ∈ pieces, piece ≠ []) →
      pieces.flatten = pageStatus 2 ++ [1, 2] →
      Agree (receiveAll (Installation.bare OneShot) pieces 0 pageMachine)
        (receiveData (Installation.bare OneShot) (pageStatus 2 ++ [1, 2]) 0 pageMachine) := by
  have calm : (traced (Installation.bare OneShot) [.receiveData (pageStatus 2 ++ [1, 2]) 0]
      pageMachine).all (fun entry => !decide (Overrun 0 entry.before)) = true := by decide +kernel
  have some : pageStatus 2 ++ [1, 2] ≠ [] := by decide +kernel
  refine ⟨some, ?_⟩
  refine (chunks_agree_iff (Installation.bare OneShot) (str "data") DEFAULT_PORT {} none [] false []
    pageCalls 0 (pageStatus 2 ++ [1, 2]) some).mpr (.inr fun entry member _ => ?_)
  simpa using List.all_eq_true.mp calm entry member

end Machine

end XRootDClient.Proto

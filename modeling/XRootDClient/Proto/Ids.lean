import XRootDClient.Proto.Terminal

/-!
# Stream ids

An id comes off the list of released ids or from a counter that wraps, and it is
given back from half a dozen places. `Ids` relates the list, the counter and the
stream table: a released id is released once and held by no stream, and every id
lies in the range the counter runs through. Every move keeps it, whatever ids were
lost to calls that raised.
-/

set_option autoImplicit false

namespace XRootDClient.Proto.Machine

open Lib Lib.BigEndian Lib.Stateful Lib.Run Auth

variable {Body : Type}

def requestId (sid : Nat) : Prop := firstSid ≤ sid ∧ sid ≤ 0xFFFF

structure Ids (machine : Machine Body) : Prop where
  distinct : machine.free.Nodup
  apart : ∀ sid ∈ machine.free, ¬machine.inFlight sid
  spare : ∀ sid ∈ machine.free, requestId sid
  held : ∀ sid, machine.inFlight sid → requestId sid
  counter : requestId machine.nextSid

theorem next_after_range {sid : Nat} (within : requestId sid) : requestId (nextAfter sid) := by
  unfold requestId nextAfter at *
  have first : firstSid = 4 := rfl
  split_ifs
  · omega
  · omega

theorem next_after_moves (sid : Nat) : nextAfter sid ≠ sid := by
  unfold nextAfter
  have first : firstSid = 4 := rfl
  split_ifs
  · omega
  · omega

namespace Ids

variable {machine after : Machine Body}

theorem fewer (ids : Ids machine) (free : after.free = machine.free)
    (counter : after.nextSid = machine.nextSid)
    (left : ∀ sid, after.inFlight sid → machine.inFlight sid) : Ids after where
  distinct := by
    rw [free]
    exact ids.distinct
  apart := by
    intro sid member held
    rw [free] at member
    exact ids.apart sid member (left sid held)
  spare := by
    rw [free]
    exact ids.spare
  held := by
    intro sid held
    exact ids.held sid (left sid held)
  counter := by
    rw [counter]
    exact ids.counter

theorem same (ids : Ids machine) (free : after.free = machine.free)
    (counter : after.nextSid = machine.nextSid) (table : after.pending = machine.pending) :
    Ids after := by
  apply ids.fewer free counter
  intro sid held
  rwa [inFlight, table] at held

theorem update (ids : Ids machine) {sid : Nat} (held : machine.inFlight sid) (pending : Pending) :
    Ids (updatePending sid pending machine) := by
  refine ids.fewer rfl rfl fun other kept => ?_
  exact (in_flight_update sid other pending machine held).mp kept

theorem release (ids : Ids machine) (sid : Nat) : Ids (machine.release sid) := by
  have left : ∀ other, (machine.release sid).inFlight other → machine.inFlight other :=
    fun other kept => ((in_flight_release sid other machine).mp kept).2
  cases found : machine.pending.get? sid with
  | none =>
      have idle : machine.release sid = machine := by
        simp only [Machine.release, found]
      rw [idle]
      exact ids
  | some pending =>
      have flying : machine.inFlight sid := Dict.mem_keys_of_get found
      have gone : ¬(machine.release sid).inFlight sid := by
        intro kept
        exact ((in_flight_release sid sid machine).mp kept).1 rfl
      have free : (machine.release sid).free = sid :: machine.free := by
        simp only [Machine.release, found]
        rw [if_pos (ids.held sid flying).1]
      have counter : (machine.release sid).nextSid = machine.nextSid := by
        rw [release_frame]
      constructor
      · rw [free, List.nodup_cons]
        exact ⟨fun member => ids.apart sid member flying, ids.distinct⟩
      · intro other member kept
        rw [free] at member
        rcases List.mem_cons.mp member with same | known
        · rw [same] at kept
          exact gone kept
        · exact ids.apart other known (left other kept)
      · intro other member
        rw [free] at member
        rcases List.mem_cons.mp member with same | known
        · rw [same]
          exact ids.held sid flying
        · exact ids.spare other known
      · intro other kept
        exact ids.held other (left other kept)
      · rw [counter]
        exact ids.counter

theorem release_all (ids : Ids machine) (streams : List (Nat × Pending)) :
    Ids (streams.foldl (fun machine entry => Machine.release entry.1 machine) machine) := by
  induction streams generalizing machine with
  | nil => exact ids
  | cons entry rest induction => exact induction (ids.release entry.1)

theorem acquired (ids : Ids machine) {sid next : Nat} {free : List Nat}
    (taken : Acquired machine sid free next) :
    requestId sid ∧ ¬machine.inFlight sid ∧ sid ∉ free ∧ free.Nodup ∧
      (∀ other ∈ free, other ∈ machine.free) ∧ requestId next := by
  cases taken with
  | recycled _ _ head =>
      have member : sid ∈ machine.free := by
        rw [head]
        exact List.mem_cons_self
      have distinct := ids.distinct
      rw [head, List.nodup_cons] at distinct
      refine ⟨ids.spare sid member, ids.apart sid member, distinct.1, distinct.2, ?_, ids.counter⟩
      intro other later
      rw [head]
      exact List.mem_cons_of_mem _ later
  | fresh spent absent =>
      have unheld : ¬machine.inFlight machine.nextSid := by
        rw [inFlight, ← Dict.get_eq_none]
        exact absent
      refine ⟨ids.counter, unheld, by simp, List.nodup_nil, by simp, ?_⟩
      exact next_after_range ids.counter

theorem lost (ids : Ids machine) {sid next : Nat} {free : List Nat}
    (taken : Acquired machine sid free next) (freed : after.free = free)
    (counter : after.nextSid = next) (table : after.pending = machine.pending) : Ids after := by
  obtain ⟨-, -, -, distinct, known, within⟩ := ids.acquired taken
  constructor
  · rw [freed]
    exact distinct
  · intro other member kept
    rw [freed] at member
    rw [inFlight, table] at kept
    exact ids.apart other (known other member) kept
  · intro other member
    rw [freed] at member
    exact ids.spare other (known other member)
  · intro other kept
    rw [inFlight, table] at kept
    exact ids.held other kept
  · rw [counter]
    exact within

theorem issued (ids : Ids machine) {sid next : Nat} {free : List Nat}
    (taken : Acquired machine sid free next) (pending : Pending) (freed : after.free = free)
    (counter : after.nextSid = next) (table : after.pending = machine.pending.set sid pending) :
    Ids after := by
  obtain ⟨within, unheld, off, distinct, known, ahead⟩ := ids.acquired taken
  have joined : ∀ other, after.inFlight other → other = sid ∨ machine.inFlight other := by
    intro other kept
    rw [inFlight, table, Dict.mem_keys_set] at kept
    exact kept
  constructor
  · rw [freed]
    exact distinct
  · intro other member kept
    rw [freed] at member
    rcases joined other kept with rfl | old
    · exact off member
    · exact ids.apart other (known other member) old
  · intro other member
    rw [freed] at member
    exact ids.spare other (known other member)
  · intro other kept
    rcases joined other kept with rfl | old
    · exact within
    · exact ids.held other old
  · rw [counter]
    exact ahead

end Ids

theorem on_status_data_ids {machine : Machine Body} (ids : Ids machine) (sid : Nat)
    (data : Bytes) : Ids (onStatusData sid data machine) := by
  unfold onStatusData
  cases found : machine.pending.get? sid with
  | none => exact ids
  | some pending =>
      cases status : pending.status with
      | none =>
          simp only [status]
          exact ids
      | some info =>
          simp only [status]
          split_ifs
          · exact (ids.release sid).same rfl rfl rfl
          · exact (ids.update (Dict.mem_keys_of_get found) _).same rfl rfl rfl

theorem StreamMove.ids {before after : Machine Body} {header : ResponseHeader} {body : Bytes}
    {pending : Pending} {framer left : Framer} (ids : Ids before)
    (held : before.inFlight header.streamid)
    (move : StreamMove before header body pending framer after left) : Ids after := by
  cases move with
  | raised => exact ids
  | completed | failed | unexpected => exact (ids.release header.streamid).same rfl rfl rfl
  | chunk => exact (ids.update held _).same rfl rfl rfl
  | redirected | waiting => exact ids.same rfl rfl rfl
  | collecting => exact ids.update held _
  | settled => exact on_status_data_ids (ids.update held _) _ _

theorem SubmitMove.ids {request : Request} {path : Text} {arriveOnPath : Bool}
    {before after : Machine Body} {issued : Option Nat} (ids : Ids before)
    (move : SubmitMove request path arriveOnPath before issued after) : Ids after := by
  cases move with
  | refused => exact ids
  | exhausted =>
      exact ⟨ids.distinct, ids.apart, ids.spare, ids.held, next_after_range ids.counter⟩
  | raised acquired => exact ids.lost acquired rfl rfl rfl
  | @issued sid free next frame signer ready acquired made =>
      have table := (enqueue_table request sid path arriveOnPath frame
        { before with free := free, nextSid := next, signer := signer }).2
      apply ids.issued acquired (pendingOf request path frame) _ _ table
      · unfold enqueue
        dsimp only
        split_ifs <;> rfl
      · unfold enqueue
        dsimp only
        split_ifs <;> rfl

theorem CloseMove.ids {before after : Machine Body} (ids : Ids before)
    (move : CloseMove before after) : Ids after := by
  cases move with
  | exhausted =>
      exact ⟨ids.distinct, ids.apart, ids.spare, ids.held, next_after_range ids.counter⟩
  | raised acquired => exact ids.lost acquired rfl rfl rfl
  | farewell ready acquired encoded => exact ids.lost acquired rfl rfl rfl
  | silent => exact ids.same rfl rfl rfl

theorem forget_path_ids {machine : Machine Body} (ids : Ids machine) (pathid : Nat) :
    Ids (forgetPath pathid machine) :=
  (ids.release_all (streamsOn pathid machine)).same rfl rfl rfl

theorem eof_ids {machine : Machine Body} (ids : Ids machine) (pathid : Nat) :
    Ids (eof pathid machine) := by
  have opened : Ids { machine with framers := machine.framers.setDefault pathid {} } :=
    ids.same rfl rfl rfl
  unfold eof
  dsimp only
  split_ifs
  · unfold onEof
    split_ifs
    · exact opened
    · refine opened.fewer rfl rfl fun sid kept => ?_
      simp [inFlight] at kept
  · have failed : Ids { machine with
        framers := machine.framers.setDefault pathid {}
        events := machine.events ++ (streamsOn pathid machine).map fun entry =>
          .failed (some entry.1) (some entry.2.request) (.connectionError
            (str "data path " ++ Text.ofNat pathid ++ str " closed by peer")) } :=
      ids.same rfl rfl rfl
    exact (forget_path_ids failed pathid).same rfl rfl rfl

section Moves

variable [Exchange Body] {installation : Installation Body}

theorem TurnMove.ids {pathid : Nat} {before after : Machine Body} (ids : Ids before)
    (move : TurnMove installation pathid before after) : Ids after := by
  cases move with
  | refused => exact ids
  | waited | orphan | garbled | notice | unknown => exact ids.same rfl rfl rfl
  | trailer sid data framer =>
      have stored : Ids (storeFramer pathid framer before) := ids.same rfl rfl rfl
      exact on_status_data_ids stored sid data
  | bringup outer inner whole body framer cut opened waiting ran move =>
      have frame := move.frame
      apply ids.same
      · rw [frame]
        rfl
      · rw [frame]
        rfl
      · rw [frame]
        rfl
  | stream outer inner whole body framer left pending cut opened running found move =>
      have stored : Ids (storeFramer pathid framer before) := ids.same rfl rfl rfl
      exact (move.ids stored (Dict.mem_keys_of_get found)).same rfl rfl rfl

theorem step_ids {machine : Machine Body} (ids : Ids machine) (move : Move) :
    Ids (step installation move machine) := by
  have moved := step_move installation move machine
  generalize step installation move machine = left at moved
  cases moved with
  | start moved =>
      cases moved with
      | refused => exact ids
      | greeted => exact ids.same rfl rfl rfl
  | submit moved => exact moved.ids ids
  | resume moved =>
      cases moved with
      | refused => exact ids
      | resent pending found =>
          split_ifs
          · exact ids.same rfl rfl rfl
          · exact ids.same rfl rfl rfl
  | close moved => exact moved.ids ids
  | tlsEstablished moved =>
      cases moved with
      | refused => exact ids
      | secured due move =>
          have frame := move.frame
          apply ids.same
          · rw [frame]
          · rw [frame]
          · rw [frame]
  | turn moved => exact moved.ids ids
  | release streamid => exact ids.release streamid
  | eof pathid => exact eof_ids ids pathid
  | forgetPath pathid => exact forget_path_ids ids pathid
  | feed | dataToSend | pathDataToSend | nextEvent => exact ids.same rfl rfl rfl

end Moves

theorem new_ids (host : Text) (port : Nat) (config : Config)
    (credentials : Option (List (Credential Body))) (username : Text) (wantTls : Bool)
    (bindTo : Bytes) : Ids (new host port config credentials username wantTls bindTo) where
  distinct := List.nodup_nil
  apart := by simp [new]
  spare := by simp [new]
  held := by simp [inFlight, new]
  counter := by
    change firstSid ≤ firstSid ∧ firstSid ≤ 0xFFFF
    decide

section Runs

variable [Exchange Body] (installation : Installation Body)

/-- The machine is one a sequence of calls comes by, at its end or between two of
its moves. -/
def Visits (calls : List Call) (machine : Machine Body) (met : Machine Body) : Prop :=
  met = after installation calls machine ∨
    ∃ entry ∈ traced installation calls machine, met = entry.before

theorem Visits.invariant (Holds : Machine Body → Prop)
    (keeps : ∀ machine move, Holds machine → Holds (step installation move machine))
    {calls : List Call} {machine met : Machine Body} (holds : Holds machine)
    (visits : Visits installation calls machine met) : Holds met := by
  rcases visits with reached | ⟨entry, member, reached⟩
  · rw [reached]
    exact calls_invariant installation (fun _ => True) Holds
      (fun machine move _ => keeps machine move) calls machine (fun _ _ => trivial) holds
  · rw [reached]
    exact history_invariant (step installation) (fun _ => True) Holds
      (fun machine move _ => keeps machine move) _ machine (fun _ _ => trivial) holds entry member

omit [Exchange Body] in
theorem Ids.submit {machine : Machine Body} (ids : Ids machine) {request : Request} {path : Text}
    {arriveOnPath : Bool} {sid : Nat}
    (issued : returned (submit request path arriveOnPath machine) = some sid) :
    requestId sid ∧ ¬machine.inFlight sid := by
  have moved := submit_move request path arriveOnPath machine
  dsimp only at moved
  rw [issued] at moved
  generalize final (Machine.submit request path arriveOnPath machine) = left at moved
  cases moved with
  | issued ready acquired made =>
      obtain ⟨within, unheld, -⟩ := ids.acquired acquired
      exact ⟨within, unheld⟩

omit [Exchange Body] in
theorem Ids.acquire {machine : Machine Body} (ids : Ids machine) {sid : Nat}
    (given : returned (acquireSid machine) = some sid) : requestId sid ∧ ¬machine.inFlight sid := by
  rcases acquire_sid_cases machine with ⟨found, free, next, acquired, ran⟩ | ⟨error, spent, ran⟩
  · rw [ran] at given
    cases given
    obtain ⟨within, unheld, -⟩ := ids.acquired acquired
    exact ⟨within, unheld⟩
  · rw [ran] at given
    cases given

/-- In every run of a new machine, of whatever length and past every wrap of the
counter: no id is released twice over, no released id is in flight, every id drawn
lies in the range of request ids, and what `submit` returns was not in flight. -/
theorem stream_ids_apart (host : Text) (port : Nat) (config : Config)
    (credentials : Option (List (Credential Body))) (username : Text) (wantTls : Bool)
    (bindTo : Bytes) (calls : List Call) (met : Machine Body)
    (visits : Visits installation calls
      (new host port config credentials username wantTls bindTo) met) :
    met.free.Nodup ∧ (∀ sid ∈ met.free, ¬met.inFlight sid) ∧
    (∀ sid, met.inFlight sid → 4 ≤ sid ∧ sid ≤ 0xFFFF) ∧
    (∀ sid, returned (acquireSid met) = some sid →
      4 ≤ sid ∧ sid ≤ 0xFFFF ∧ ¬met.inFlight sid) ∧
    ∀ request path arriveOnPath sid,
      returned (submit request path arriveOnPath met) = some sid →
        4 ≤ sid ∧ sid ≤ 0xFFFF ∧ ¬met.inFlight sid := by
  have ids : Ids met := visits.invariant installation Ids
    (fun machine move held => step_ids held move)
    (new_ids host port config credentials username wantTls bindTo)
  refine ⟨ids.distinct, ids.apart, ids.held, ?_, ?_⟩
  · intro sid given
    obtain ⟨within, unheld⟩ := ids.acquire given
    exact ⟨within.1, within.2, unheld⟩
  · intro request path arriveOnPath sid issued
    obtain ⟨within, unheld⟩ := ids.submit issued
    exact ⟨within.1, within.2, unheld⟩

theorem stream_ids_apart_reused :
    let calls : List Call := [.start, .receiveData (greets 1 [] ++ admits []) 0,
      .submit Request.Ping [] false, .submit Request.Ping [] false,
      .receiveData (response 4 kXR_ok []) 0]
    let machine : Machine OneShot := new (str "data") DEFAULT_PORT {} none [] false []
    let met := after (Installation.bare OneShot) calls machine
    met.free = [4] ∧ met.pending.keys = [5] ∧ met.free.Nodup := by
  refine ⟨by decide +kernel, by decide +kernel, ?_⟩
  exact (stream_ids_apart (Installation.bare OneShot) (str "data") DEFAULT_PORT {} none [] false []
    _ _ (.inl rfl)).1

end Runs

end XRootDClient.Proto.Machine

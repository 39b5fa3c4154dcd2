import XRootDClient.Client.File
import XRootDClient.Client.Handles
import XRootDClient.Lib.Triple
import XRootDClient.Proto.Checkpoint

/-!
# Bulk transfers

An open file spreads the chunks of its reads and writes over data paths bound for it. A
chunk that fails on a path is asked for the way the specification has it, and one that fails
there as well on the control link. A read-only file that loses its connection on the way is
opened again. What servers and networks do is given with the request that meets it; what
the server holds behind the handle is part of the state.
-/

set_option autoImplicit false

namespace XRootDClient.Client

open Lib Lib.BigEndian Lib.Extent Lib.Stateful Proto
open Handles (Failure)
open Routing (Router isConnectionError)

/-- An open file, the router pinned for it, and what the server holds. `closed` is
`self._router.session.closed`. -/
structure Remote where
  file : File
  config : Config := {}
  path : Text := []
  recoverHandles : Bool := true
  dataStreams : Int := 1
  router : Router
  closed : Bool := false
  handle : Option Bytes
  writing : Bool := false
  checkpoint : Bool := false
  pathid : UInt8 := 0
  dataPaths : List UInt8 := []
  rr : Nat := 0
  multistream : Bool := true
  recoveries : Nat := 0

/-- How `session.execute` ends on a session that is not over. The server answers, or an
exception is raised; the server may have done what it was asked even then, and the session
may be over. -/
inductive Attempt
  | served
  | raises (failure : Failure) (applied lost : Bool)

/-- What a `kXR_open` is answered with: a handle, where it was given out, and whether the
length of the file came with it. -/
structure Opened where
  handle : Bytes
  router : Router
  told : Bool := true

/-- What a file that is opened again meets: the open, and the paths it is given until one
is refused. -/
structure Recovery where
  opening : Except Failure Opened
  binds : List UInt8 := []

/-- A request that may be made again on a file that was opened again. -/
structure Executed where
  first : Attempt
  recovery : Recovery
  again : Attempt

/-- What a chunk meets. `arrives` is `session.arrives_on_path is not False`. -/
structure Trip where
  control : Executed
  arrives : Bool := true
  direct : Attempt := .served
  binds : List UInt8 := []
  fallback : Executed
  split : Executed
  last : Executed

/-- A request for a handle and a path, and what a server does with it that gave the handle
out: what it answers, and what it holds afterwards. -/
structure Order (Value : Type) where
  build : Bytes → UInt8 → Request
  serve : Bytes → Bytes → Value × Bytes

namespace Remote

def recoverable (remote : Remote) : Bool := remote.recoverHandles && !remote.writing

abbrev Op := EStateM Failure Remote

variable {Value : Type}

def raise (error : Exception) : Op Value := throw (.raised error)

/-- `File.handle`. -/
def getHandle : Op Bytes := do
  match (← get).handle with
  | none => raise (.valueError (str "I/O operation on closed file"))
  | some handle => return handle

def lostError (router : Router) : Exception :=
  .connectionError (str "the connection to " ++ router.endpoint ++ str " was lost")

def session : Op Unit := do
  let remote ← get
  if remote.closed then raise (lostError remote.router)

def apply (order : Order Value) (handle : Bytes) (remote : Remote) : Remote :=
  { remote with file := { remote.file with
      server := (order.serve handle remote.file.server).2 } }

def lose (lost : Bool) (remote : Remote) : Remote := { remote with closed := lost }

/-- `session.execute(...)`. -/
def attempt (order : Order Value) (handle : Bytes) (pathid : UInt8) (input : Attempt) :
    Op Value := do
  match encode (order.build handle pathid) 0 with
  | .error error => raise error
  | .ok _ =>
      let remote ← get
      match input with
      | .served =>
          set (remote.apply order handle)
          return (order.serve handle remote.file.server).1
      | .raises failure applied lost =>
          set (lose lost (if applied then remote.apply order handle else remote))
          throw failure

/-- What `Router.execute` on a pinned router makes of an exception. -/
def routed (name : Text) (router : Router) : Failure → Failure
  | .raised error =>
      if isConnectionError error then .ended (Routing.failure { name } router error 1)
      else .ended (.raised error)
  | failure => failure

/-- `self._router.execute(...)`. -/
def routerExecute (order : Order Value) (handle : Bytes) (pathid : UInt8) (input : Attempt) :
    Op Value := do
  let router := (← get).router
  tryCatch (do session; attempt order handle pathid input) fun failure =>
    throw (routed (order.build handle pathid).typeName router failure)

def bindDataStreams : List UInt8 → Op Unit
  | [] => pure ()
  | pathid :: rest => do
      let remote ← get
      if !remote.closed ∧ (remote.dataPaths.length : Int) < remote.dataStreams ∧ pathid ≠ 0 then
        set { remote with dataPaths := remote.dataPaths ++ [pathid] }
        bindDataStreams rest
      else pure ()

def nextPath : Op UInt8 := do
  let remote ← get
  if !remote.multistream || remote.dataPaths.isEmpty then return 0
  else
    set { remote with rr := remote.rr + 1 }
    return remote.dataPaths.getD (remote.rr % remote.dataPaths.length) 0

def forgotten (remote : Remote) : Remote :=
  { remote with
    file := { remote.file with stat := none }
    handle := none, closed := false, pathid := 0, dataPaths := [], rr := 0, multistream := true
    recoveries := remote.recoveries + 1 }

def adopt (opened : Opened) (remote : Remote) : Remote :=
  { remote with
    file := if opened.told then remote.file.refresh.2 else { remote.file with stat := none }
    handle := some opened.handle, router := opened.router }

def reopen (recovery : Recovery) : Op Bytes := do
  modify forgotten
  match recovery.opening with
  | .error failure => throw failure
  | .ok opened =>
      modify (adopt opened)
      bindDataStreams recovery.binds
      return opened.handle

/-- `_execute`; the path is looked up whenever the request is made. -/
def execute (order : Order Value) (path : Remote → UInt8) (input : Executed) : Op Value :=
  tryCatch (do
    let handle ← getHandle
    routerExecute order handle (path (← get)) input.first) fun failure => do
      if failure.transient && (← get).recoverable then
        let handle ← reopen input.recovery
        routerExecute order handle (path (← get)) input.again
      else throw failure

def splitBulk (order : Order Value) (pathid : UInt8) (trip : Trip) : Op Value :=
  tryCatch (execute order (fun _ => pathid) trip.split) fun failure => do
    if !failure.caught || (← get).handle.isNone then throw failure
    else
      modify fun remote => { remote with multistream := false }
      execute order (fun _ => 0) trip.last

def onDataPath (order : Order Value) (pathid : UInt8) (input : Attempt) : Op (Option Value) :=
  tryCatch (do
    session
    let handle ← getHandle
    return some (← attempt order handle pathid input)) fun failure =>
      if failure.caught then return none else throw failure

def bulk (order : Order Value) (trip : Trip) : Op Value := do
  let pathid ← nextPath
  if pathid = 0 || (← get).checkpoint then execute order Remote.pathid trip.control
  else
    session
    if trip.arrives then
      match ← onDataPath order pathid trip.direct with
      | some value => return value
      | none =>
          modify fun remote => { remote with dataPaths := remote.dataPaths.erase pathid }
          bindDataStreams trip.binds
          let pathid ← nextPath
          if pathid = 0 then execute order (fun _ => 0) trip.fallback
          else splitBulk order pathid trip
    else splitBulk order pathid trip

def passing : Failure → Bool
  | .raised error => isConnectionError error
  | failure => failure.transient

end Remote

def Recovery.Opens (recovery : Recovery) : Prop := ∃ opened, recovery.opening = .ok opened

/-- An attempt that may fail, with an exception that is caught; the session is over only
where the file can be opened again. -/
def Attempt.Tried (recoverable : Bool) : Attempt → Prop
  | .served => True
  | .raises failure _ lost => failure.caught = true ∧ (lost = true → recoverable = true)

/-- An attempt that fails only with its connection, where the file can be opened again. -/
def Attempt.Answered (recoverable : Bool) : Attempt → Prop
  | .served => True
  | .raises failure _ _ => recoverable = true ∧ Remote.passing failure = true

theorem Attempt.Answered.tried {recoverable : Bool} {input : Attempt}
    (answered : input.Answered recoverable) : input.Tried recoverable := by
  cases input with
  | served => exact trivial
  | raises failure applied lost =>
      obtain ⟨can, lost_⟩ := answered
      refine ⟨?_, fun _ => can⟩
      cases failure with
      | ended ending => cases ending <;> first | rfl | cases lost_
      | raised error => cases error <;> first | rfl | cases lost_
      | running => cases lost_

structure Executed.Tried (recoverable : Bool) (input : Executed) : Prop where
  first : input.first.Tried recoverable
  opens : recoverable = true → input.recovery.Opens
  again : input.again.Tried recoverable

/-- A request on the control link: it is answered, at once or on the new connection of a
file that was opened again. -/
structure Executed.Answered (recoverable : Bool) (input : Executed) : Prop where
  first : input.first.Answered recoverable
  opens : recoverable = true → input.recovery.Opens
  again : input.again = .served

/-- The data paths may fail in every way, the control link answers. -/
structure Trip.Weathered (recoverable : Bool) (trip : Trip) : Prop where
  control : trip.control.Answered recoverable
  direct : trip.direct.Tried recoverable
  fallback : trip.fallback.Answered recoverable
  split : trip.split.Tried recoverable
  last : trip.last.Answered recoverable

/-- It makes no difference whether a request is carried out once or twice. -/
def Order.Stable {Value : Type} (order : Order Value) : Prop :=
  ∀ handle other content, order.serve other (order.serve handle content).2 =
    order.serve other content

/-- The request can be written for every handle and path. -/
def Order.Fits {Value : Type} (order : Order Value) : Prop :=
  ∀ handle pathid, ∃ frame, encode (order.build handle pathid) 0 = .ok frame

namespace Remote

variable {Value : Type} {order : Order Value} {start remote : Remote}

def settings (remote : Remote) : Config × Text × Bool × Int × Bool × Bool :=
  (remote.config, remote.path, remote.recoverHandles, remote.dataStreams, remote.writing,
    remote.checkpoint)

theorem config_settings (same : remote.settings = start.settings) :
    remote.config = start.config := congrArg Prod.fst same

theorem checkpoint_settings (same : remote.settings = start.settings) :
    remote.checkpoint = start.checkpoint := by
  simp only [settings, Prod.mk.injEq] at same
  exact same.2.2.2.2.2

theorem recoverable_settings (same : remote.settings = start.settings) :
    remote.recoverable = start.recoverable := by
  simp only [settings, Prod.mk.injEq] at same
  rw [recoverable, recoverable, same.2.2.1, same.2.2.2.2.1]

/-- The length that is kept, where one is, is the length of the file. -/
def Told (file : File) : Prop :=
  ∀ length, file.stat = some length →
    length = file.server.length ∧ file.sizeHint = file.server.length

/-- What holds of a file while it is being asked: the server has carried the request out or
not, and the connection is over only where the file can be opened again. -/
structure Amid (order : Order Value) (start remote : Remote) : Prop where
  server : remote.file.server = start.file.server ∨
    ∃ handle, remote.file.server = (order.serve handle start.file.server).2
  handle : remote.handle ≠ none
  closed : remote.closed = true → start.recoverable = true
  settings : remote.settings = start.settings
  pathid : start.pathid = 0 → remote.pathid = 0
  cached : (∀ handle, (order.serve handle start.file.server).2 = start.file.server) →
    Told start.file → Told remote.file

structure Done (order : Order Value) (start : Remote) (value : Value) (remote : Remote) : Prop
    extends Amid order start remote where
  answered : ∃ handle, value = (order.serve handle start.file.server).1 ∧
    remote.file.server = (order.serve handle start.file.server).2
  up : remote.closed = false

theorem Amid.served (stable : order.Stable) (amid : Amid order start remote) (handle : Bytes) :
    order.serve handle remote.file.server = order.serve handle start.file.server := by
  rcases amid.server with same | ⟨other, same⟩
  · rw [same]
  · rw [same, stable]

theorem Amid.apply (stable : order.Stable) (amid : Amid order start remote) (handle : Bytes) :
    Amid order start (remote.apply order handle) where
  server := .inr ⟨handle, congrArg Prod.snd (amid.served stable handle)⟩
  handle := amid.handle
  closed := amid.closed
  settings := amid.settings
  pathid := amid.pathid
  cached := by
    intro silent told
    have same : (order.serve handle remote.file.server).2 = remote.file.server := by
      rw [amid.served stable handle, silent handle]
      rcases amid.server with same | ⟨other, same⟩
      · exact same.symm
      · rw [same, silent other]
    intro length known
    change length = (order.serve handle remote.file.server).2.length ∧
      remote.file.sizeHint = (order.serve handle remote.file.server).2.length
    rw [same]
    exact amid.cached silent told length known

theorem Amid.loses (amid : Amid order start remote) {lost : Bool}
    (survivable : lost = true → start.recoverable = true) :
    Amid order start (remote.lose lost) :=
  ⟨amid.server, amid.handle, survivable, amid.settings, amid.pathid, amid.cached⟩

section Request

variable {recoverable : Bool}

theorem session_amid : Triple (Amid order start) session
    (fun _ now => Amid order start now ∧ now.closed = false)
    (fun failure now => Amid order start now ∧ now.closed = true ∧
      passing failure = true ∧ failure.caught = true) := by
  intro remote amid
  unfold session
  rw [run_bind, run_get]
  dsimp only
  split_ifs with over_
  · exact ⟨amid, over_, rfl, rfl⟩
  · exact ⟨amid, Bool.eq_false_of_not_eq_true over_⟩

theorem session_up : Triple (fun now => Amid order start now ∧ now.closed = false) session
    (fun _ now => Amid order start now ∧ now.closed = false) fun _ _ => False := by
  intro remote both
  unfold session
  rw [run_bind, run_get]
  dsimp only
  rw [if_neg (by rw [both.2]; exact Bool.false_ne_true)]
  exact both

theorem attempt_served (stable : order.Stable) (fits : order.Fits) (handle : Bytes)
    (pathid : UInt8) :
    Triple (fun now => Amid order start now ∧ now.closed = false)
      (attempt order handle pathid .served) (Done order start) fun _ _ => False := by
  rintro remote ⟨amid, up⟩
  obtain ⟨frame, written⟩ := fits handle pathid
  unfold attempt
  rw [written]
  exact ⟨amid.apply stable handle, ⟨handle, congrArg Prod.fst (amid.served stable handle),
    congrArg Prod.snd (amid.served stable handle)⟩, up⟩

theorem attempt_amid (stable : order.Stable) (fits : order.Fits) (handle : Bytes) (pathid : UInt8)
    {input : Attempt} (tried : input.Tried start.recoverable) :
    Triple (fun now => Amid order start now ∧ now.closed = false)
      (attempt order handle pathid input) (Done order start)
      (fun failure now => Amid order start now ∧ failure.caught = true ∧
        (input.Answered start.recoverable →
          start.recoverable = true ∧ passing failure = true)) := by
  cases input with
  | served =>
      exact triple_weaken (attempt_served stable fits handle pathid) (fun _ both => both)
        (fun _ _ done => done) (fun _ _ never => never.elim)
  | raises failure applied lost =>
      rintro remote ⟨amid, up⟩
      obtain ⟨frame, written⟩ := fits handle pathid
      unfold attempt
      rw [written]
      refine ⟨?_, tried.1, fun answered => answered⟩
      cases applied with
      | false => exact amid.loses tried.2
      | true => exact (amid.apply stable handle).loses tried.2

theorem routed_transient (name : Text) (router : Router) (failure : Failure) :
    (routed name router failure).transient = passing failure := by
  cases failure with
  | ended ending => rfl
  | raised error =>
      unfold routed
      dsimp only
      split_ifs with gone
      · rw [passing, gone, Routing.failure]
        split_ifs <;> rfl
      · rw [passing, Bool.eq_false_of_not_eq_true gone]
        rfl
  | running => rfl

theorem routed_caught (name : Text) (router : Router) {failure : Failure}
    (caught : failure.caught = true) : (routed name router failure).caught = true := by
  cases failure with
  | ended ending => exact caught
  | raised error =>
      unfold routed
      dsimp only
      split_ifs with gone
      · rw [Routing.failure]
        split_ifs <;> rfl
      · cases error <;> exact caught
  | running => exact caught

/-- A request through the router is answered, or fails the way its attempt does; where the
session is over, it fails so that the file is opened again. -/
theorem router_execute_amid (stable : order.Stable) (fits : order.Fits) (handle : Bytes)
    (pathid : UInt8) {input : Attempt} (tried : input.Tried start.recoverable) :
    Triple (Amid order start) (routerExecute order handle pathid input) (Done order start)
      (fun failure now => Amid order start now ∧ failure.caught = true ∧
        (input.Answered start.recoverable →
          start.recoverable = true ∧ failure.transient = true)) := by
  have body : Triple (Amid order start) (do session; attempt order handle pathid input)
      (Done order start) (fun failure now => Amid order start now ∧ failure.caught = true ∧
        (input.Answered start.recoverable →
          start.recoverable = true ∧ passing failure = true)) := by
    have asked := triple_weaken (@session_amid Value order start) (fun _ amid => amid)
      (fun _ _ both => both) (fun failure now (gone : Amid order start now ∧ _) =>
        (⟨gone.1, gone.2.2.2, fun _ => ⟨gone.1.closed gone.2.1, gone.2.2.1⟩⟩ :
          Amid order start now ∧ failure.caught = true ∧
            (input.Answered start.recoverable →
              start.recoverable = true ∧ passing failure = true)))
    exact triple_bind asked fun _ => attempt_amid stable fits handle pathid tried
  unfold routerExecute
  apply triple_look
  intro seen
  apply triple_catch body
  intro failure
  apply triple_throw
  rintro now ⟨amid, caught, lost⟩
  exact ⟨amid, routed_caught _ _ caught, fun answered =>
    ⟨(lost answered).1, (routed_transient _ _ _).trans (lost answered).2⟩⟩

theorem Amid.path (amid : Amid order start remote) (paths : List UInt8) (rr : Nat)
    (multistream : Bool) :
    Amid order start { remote with dataPaths := paths, rr := rr, multistream := multistream } :=
  ⟨amid.server, amid.handle, amid.closed, amid.settings, amid.pathid, amid.cached⟩

theorem bind_data_streams_amid (binds : List UInt8) (closed : Bool) :
    Triple (fun now => Amid order start now ∧ now.closed = closed) (bindDataStreams binds)
      (fun _ now => Amid order start now ∧ now.closed = closed) fun _ _ => False := by
  induction binds with
  | nil => exact triple_pure fun _ both => both
  | cons pathid rest induction =>
      unfold bindDataStreams
      apply triple_get
      intro seen
      split_ifs with more
      · have bound : Triple (fun now => now = seen ∧ Amid order start seen ∧ seen.closed = closed)
            (set { seen with dataPaths := seen.dataPaths ++ [pathid] } : Op PUnit)
            (fun _ now => Amid order start now ∧ now.closed = closed) fun _ _ => False :=
          fun now both => ⟨both.2.1.path _ _ _, both.2.2⟩
        exact triple_bind bound fun _ => induction
      · exact triple_pure fun now both => both.1 ▸ both.2

theorem next_path_amid (closed : Bool) :
    Triple (fun now => Amid order start now ∧ now.closed = closed) nextPath
      (fun _ now => Amid order start now ∧ now.closed = closed) fun _ _ => False := by
  rintro remote ⟨amid, up⟩
  unfold nextPath
  rw [run_bind, run_get]
  dsimp only
  split_ifs
  · exact ⟨amid, up⟩
  · exact ⟨amid.path _ _ _, up⟩

theorem reopen_amid {recovery : Recovery} (opens : recovery.Opens) :
    Triple (Amid order start) (reopen recovery)
      (fun _ now => Amid order start now ∧ now.closed = false) fun _ _ => False := by
  obtain ⟨opened, answered⟩ := opens
  have cleared : Triple (Amid order start) (modify forgotten : Op PUnit)
      (fun _ now => Amid order start (now.adopt opened) ∧ now.closed = false)
      fun _ _ => False := by
    apply triple_modify
    intro remote amid
    refine ⟨⟨?_, Option.some_ne_none _, (by intro never; cases never), amid.settings,
      fun _ => rfl, fun silent told => ?_⟩, rfl⟩
    · have same : (remote.forgotten.adopt opened).file.server = remote.file.server := by
        unfold adopt
        cases opened.told <;> rfl
      rw [same]
      exact amid.server
    · unfold adopt
      cases opened.told with
      | true => exact fun length known => ⟨(Option.some.inj known).symm, rfl⟩
      | false => exact fun length known => by cases known
  have given : Triple (fun now => Amid order start (now.adopt opened) ∧ now.closed = false)
      (modify (adopt opened) : Op PUnit)
      (fun _ now => Amid order start now ∧ now.closed = false) fun _ _ => False :=
    triple_modify fun _ both => both
  unfold reopen
  apply triple_bind cleared
  intro _
  rw [answered]
  apply triple_bind given
  intro _
  apply triple_bind (bind_data_streams_amid _ _)
  exact fun _ => triple_pure fun _ both => both

theorem get_handle_amid {Before : Remote → Prop} (held : ∀ now, Before now → now.handle ≠ none) :
    Triple Before getHandle (fun _ => Before) fun _ _ => False := by
  intro remote before
  unfold getHandle
  rw [run_bind, run_get]
  dsimp only
  cases known : remote.handle with
  | none => exact held remote before known
  | some handle => exact before

theorem router_execute_served (stable : order.Stable) (fits : order.Fits) (handle : Bytes)
    (pathid : UInt8) :
    Triple (fun now => Amid order start now ∧ now.closed = false)
      (routerExecute order handle pathid .served) (Done order start) fun _ _ => False := by
  unfold routerExecute
  apply triple_look
  intro seen
  apply triple_catch (triple_bind session_up fun _ => attempt_served stable fits handle pathid)
  exact fun _ => fun _ never => never.elim

theorem execute_first (stable : order.Stable) (fits : order.Fits) (path : Remote → UInt8)
    {input : Attempt} (tried : input.Tried start.recoverable) :
    Triple (Amid order start) (do
      let handle ← getHandle
      routerExecute order handle (path (← get)) input) (Done order start)
      (fun failure now => Amid order start now ∧ failure.caught = true ∧
        (input.Answered start.recoverable →
          start.recoverable = true ∧ failure.transient = true)) := by
  apply triple_bind (triple_weaken (get_handle_amid fun _ amid => amid.handle)
    (fun _ amid => amid) (fun _ _ amid => amid) (fun _ _ never => never.elim))
  intro handle
  apply triple_look
  intro seen
  exact router_execute_amid stable fits handle _ tried

theorem execute_tried (stable : order.Stable) (fits : order.Fits) (path : Remote → UInt8)
    {input : Executed} (tried : input.Tried start.recoverable) :
    Triple (Amid order start) (execute order path input) (Done order start)
      (fun failure now => Amid order start now ∧ failure.caught = true) := by
  unfold execute
  apply triple_catch (execute_first stable fits path tried.first)
  intro failure
  apply triple_get
  intro seen
  split_ifs with again
  · rw [Bool.and_eq_true] at again
    intro now both
    obtain ⟨rfl, amid, -⟩ := both
    have opens := tried.opens ((recoverable_settings amid.settings) ▸ again.2)
    have repeated : Triple (Amid order start) (do
        let handle ← reopen input.recovery
        routerExecute order handle (path (← get)) input.again) (Done order start)
        (fun failure now => Amid order start now ∧ failure.caught = true) := by
      apply triple_bind (triple_weaken (reopen_amid opens) (fun _ amid => amid)
        (fun _ _ both => both.1) (fun _ _ never => never.elim))
      intro handle
      apply triple_look
      intro seen
      exact triple_weaken (router_execute_amid stable fits handle _ tried.again)
        (fun _ amid => amid) (fun _ _ done => done) (fun _ _ failed => ⟨failed.1, failed.2.1⟩)
    exact repeated now amid
  · apply triple_throw
    rintro now ⟨rfl, amid, caught, -⟩
    exact ⟨amid, caught⟩

theorem execute_answered (stable : order.Stable) (fits : order.Fits) (path : Remote → UInt8)
    {input : Executed} (answered : input.Answered start.recoverable) :
    Triple (Amid order start) (execute order path input) (Done order start)
      fun _ _ => False := by
  unfold execute
  apply triple_catch (execute_first stable fits path answered.first.tried)
  intro failure
  apply triple_get
  intro seen now both
  obtain ⟨rfl, amid, -, lost⟩ := both
  obtain ⟨can, transient⟩ := lost answered.first
  have again : (failure.transient && now.recoverable) = true := by
    rw [transient, recoverable_settings amid.settings, can]
    rfl
  rw [if_pos again, answered.again]
  have repeated : Triple (Amid order start) (do
      let handle ← reopen input.recovery
      routerExecute order handle (path (← get)) .served) (Done order start)
      fun _ _ => False := by
    apply triple_bind (reopen_amid (answered.opens can))
    intro handle
    apply triple_look
    intro seen
    exact router_execute_served stable fits handle _
  exact repeated now amid

end Request

section Chunk

variable {trip : Trip}

theorem split_bulk_answered (stable : order.Stable) (fits : order.Fits) (pathid : UInt8)
    (weathered : trip.Weathered start.recoverable) :
    Triple (Amid order start) (splitBulk order pathid trip) (Done order start)
      fun _ _ => False := by
  unfold splitBulk
  apply triple_catch (execute_tried stable fits _ weathered.split)
  intro failure
  apply triple_get
  intro seen now both
  obtain ⟨rfl, amid, caught⟩ := both
  have goes : (!failure.caught || now.handle.isNone) = false := by
    rw [caught, Bool.not_true, Bool.false_or, Option.isNone_eq_false_iff,
      Option.isSome_iff_ne_none]
    exact amid.handle
  rw [if_neg (by rw [goes]; exact Bool.false_ne_true)]
  have latched : Triple (Amid order start)
      (modify fun remote => { remote with multistream := false } : Op PUnit)
      (fun _ => Amid order start) fun _ _ => False :=
    triple_modify fun _ amid => amid.path _ _ _
  exact triple_bind latched (fun _ => execute_answered stable fits _ weathered.last) now amid

theorem on_data_path_amid (stable : order.Stable) (fits : order.Fits) (pathid : UInt8)
    {input : Attempt} (tried : input.Tried start.recoverable) :
    Triple (Amid order start) (onDataPath order pathid input)
      (fun value now => match value with
        | some value => Done order start value now
        | none => Amid order start now) fun _ _ => False := by
  unfold onDataPath
  have asked : Triple (Amid order start) (do
      session
      let handle ← getHandle
      return some (← attempt order handle pathid input))
      (fun value now => match value with
        | some value => Done order start value now
        | none => Amid order start now)
      (fun failure now => Amid order start now ∧ failure.caught = true) := by
    apply triple_bind (triple_weaken session_amid (fun _ amid => amid) (fun _ _ both => both)
      (fun _ _ gone => ⟨gone.1, gone.2.2.2⟩))
    intro _
    apply triple_bind (triple_weaken (get_handle_amid fun _ both => both.1.handle)
      (fun _ both => both) (fun _ _ both => both) (fun _ _ never => never.elim))
    intro handle
    apply triple_bind (triple_weaken (attempt_amid stable fits handle pathid tried)
      (fun _ both => both) (fun _ _ done => done) (fun _ _ failed => ⟨failed.1, failed.2.1⟩))
    exact fun value => triple_pure fun _ done => done
  apply triple_catch asked
  intro failure now both
  rw [if_pos both.2]
  exact both.1

/-- The session is known to be over, and the next chunk would go over a data path. -/
def Blocked (remote : Remote) : Prop :=
  remote.closed = true ∧ remote.checkpoint = false ∧ remote.multistream = true ∧
    remote.dataPaths ≠ []

theorem Amid.first (held : start.handle ≠ none)
    (survivable : start.closed = true → start.recoverable = true) : Amid order start start :=
  ⟨.inl rfl, held, survivable, rfl, fun zero => zero, fun _ told => told⟩

theorem bulk_falls_back (stable : order.Stable) (fits : order.Fits)
    (weathered : trip.Weathered start.recoverable) (pathid : UInt8) :
    Triple (Amid order start) (do
      modify fun remote => { remote with dataPaths := remote.dataPaths.erase pathid }
      bindDataStreams trip.binds
      let pathid ← nextPath
      if pathid = 0 then execute order (fun _ => 0) trip.fallback
      else splitBulk order pathid trip) (Done order start) fun _ _ => False := by
  intro now amid
  have erased : Triple (fun before => Amid order start before ∧ before.closed = now.closed)
      (modify fun remote => { remote with dataPaths := remote.dataPaths.erase pathid } : Op PUnit)
      (fun _ after => Amid order start after ∧ after.closed = now.closed) fun _ _ => False :=
    triple_modify fun _ both => ⟨both.1.path _ _ _, both.2⟩
  have rest : Triple (fun before => Amid order start before ∧ before.closed = now.closed) (do
      modify fun remote => { remote with dataPaths := remote.dataPaths.erase pathid }
      bindDataStreams trip.binds
      let pathid ← nextPath
      if pathid = 0 then execute order (fun _ => 0) trip.fallback
      else splitBulk order pathid trip) (Done order start) fun _ _ => False := by
    apply triple_bind erased
    intro _
    apply triple_bind (bind_data_streams_amid _ _)
    intro _
    apply triple_bind (next_path_amid _)
    intro next
    split_ifs
    · exact triple_weaken (execute_answered stable fits _ weathered.fallback)
        (fun _ both => both.1) (fun _ _ done => done) (fun _ _ never => never)
    · exact triple_weaken (split_bulk_answered stable fits next weathered)
        (fun _ both => both.1) (fun _ _ done => done) (fun _ _ never => never)
  exact rest now ⟨amid, rfl⟩

theorem bulk_answered (stable : order.Stable) (fits : order.Fits)
    (weathered : trip.Weathered start.recoverable) (held : start.handle ≠ none)
    (survivable : start.closed = true → start.recoverable = true) (free : ¬start.Blocked) :
    Triple (· = start) (bulk order trip) (Done order start) fun _ _ => False := by
  have first : Amid order start start := .first held survivable
  have chosen : Triple (· = start) nextPath (fun pathid now => Amid order start now ∧
      now.checkpoint = start.checkpoint ∧ now.closed = start.closed ∧
      (pathid ≠ 0 → start.multistream = true ∧ start.dataPaths ≠ [])) fun _ _ => False := by
    intro now same
    subst same
    unfold nextPath
    rw [run_bind, run_get]
    dsimp only
    split_ifs with none
    · exact ⟨first, rfl, rfl, fun some => absurd rfl some⟩
    · rw [Bool.or_eq_true, not_or, Bool.not_eq_true, Bool.not_eq_false', List.isEmpty_iff] at none
      exact ⟨first.path _ _ _, rfl, rfl, fun _ => none⟩
  unfold bulk
  apply triple_bind chosen
  intro pathid
  apply triple_get
  intro seen now both
  obtain ⟨rfl, amid, journal, closed, spread⟩ := both
  by_cases control : (decide (pathid = 0) || now.checkpoint) = true
  · rw [if_pos control]
    exact execute_answered stable fits _ weathered.control now amid
  rw [if_neg control]
  rw [Bool.or_eq_true, not_or, decide_eq_true_eq, Bool.not_eq_true] at control
  have up : now.closed = false := by
    cases known : start.closed with
    | false => rw [closed, known]
    | true => exact absurd ⟨known, journal ▸ control.2, spread control.1⟩ free
  have carried : Triple (fun now => Amid order start now ∧ now.closed = false) (do
      session
      if trip.arrives then
        match ← onDataPath order pathid trip.direct with
        | some value => return value
        | none =>
            modify fun remote => { remote with dataPaths := remote.dataPaths.erase pathid }
            bindDataStreams trip.binds
            let pathid ← nextPath
            if pathid = 0 then execute order (fun _ => 0) trip.fallback
            else splitBulk order pathid trip
      else splitBulk order pathid trip) (Done order start) fun _ _ => False := by
    apply triple_bind session_up
    intro _
    split_ifs
    · apply triple_bind (triple_weaken (on_data_path_amid stable fits pathid weathered.direct)
        (fun _ both => both.1) (fun _ _ done => done) (fun _ _ never => never))
      intro value
      cases value with
      | some value => exact triple_pure fun _ done => done
      | none => exact bulk_falls_back stable fits weathered pathid
    · exact triple_weaken (split_bulk_answered stable fits pathid weathered)
        (fun _ both => both.1) (fun _ _ done => done) (fun _ _ never => never)
  exact carried now ⟨amid, up⟩

end Chunk

end Remote

end XRootDClient.Client

import XRootDClient.Lib.Triple
import XRootDClient.Session.Attempts

/-!
# File handles

A `File` opens through its router, keeps the handle it is given together with a router
pinned to where the open was answered, and puts the handle into every request from then on.
A read-only handle that is lost with its connection is got back by opening the file again.
What servers and networks do is given with the operation that meets it; every state on the
way, and every frame with a handle in it, is noted down.
-/

set_option autoImplicit false

namespace XRootDClient.Handles

open Lib Lib.BigEndian Lib.Run Lib.Stateful Routing

/-- What the answer to a `kXR_open` gives. The session it came on and the URL of the router
then are nothing the client keeps. -/
structure Handle where
  value : Bytes
  issuer : Nat
  home : XRootDURL
  deriving DecidableEq

/-- `name` is `str(self.url)`; the router is known by its number. -/
structure File where
  url : XRootDURL
  name : Text := []
  config : Config := {}
  recoverHandles : Bool := true
  dataStreams : Int := 1
  router : Nat
  ownsRouter : Bool := true
  handle : Option Handle := none
  writing : Bool := false
  checkpoint : Bool := false
  pathid : Nat := 0
  dataPaths : List Nat := []
  rr : Nat := 0
  multistream : Bool := true
  recoveries : Nat := 0

def File.recoverable (file : File) : Bool := file.recoverHandles && !file.writing

structure Sending where
  session : Nat
  handle : Handle
  deriving DecidableEq

structure Sight where
  handle : Option Handle
  router : Option Router
  deriving DecidableEq

structure Process (Ambient : Type) where
  world : World Ambient
  file : File
  sent : List Sending := []
  seen : List Sight := []

/-- How an operation fails: with the way `Router.execute` ended, with an exception of its
own, or not at all because it is still running. -/
inductive Failure
  | ended (ending : Ending)
  | raised (error : Exception)
  | running

def Failure.transient : Failure → Bool
  | .ended .waitLimitError => true
  | .ended (.timeoutError _ _) => true
  | .ended (.transientError _ _) => true
  | _ => false

def Failure.caught : Failure → Bool
  | .ended (.raised (.foreign typeName _)) => typeName = str "ValueError"
  | .raised (.foreign typeName _) => typeName = str "ValueError"
  | .running => false
  | _ => true

variable {Ambient : Type}

def Process.sight (process : Process Ambient) : Sight :=
  ⟨process.file.handle, process.world.routers[process.file.router]?⟩

def Process.note (process : Process Ambient) : Process Ambient :=
  { process with seen := process.seen ++ [process.sight] }

abbrev Op (Ambient : Type) := EStateM Failure (Process Ambient)

def change (update : File → File) : Op Ambient Unit :=
  modify fun process => Process.note { process with file := update process.file }

def send (sid : Nat) (bearing : Option Handle) : Op Ambient Unit :=
  modify fun process =>
    { process with sent := process.sent ++ bearing.toList.map fun handle => ⟨sid, handle⟩ }

def bear (bearing : Option Handle) : Except Exception Nat → Op Ambient Unit
  | .ok sid => send sid bearing
  | .error _ => pure ()

def valueError {Value : Type} (message : Text) : Op Ambient Value :=
  throw (.raised (.foreign (str "ValueError") message))

def handle : Op Ambient Handle := do
  match (← get).file.handle with
  | none => valueError (str "I/O operation on closed file")
  | some handle => return handle

def nextPath : Op Ambient Nat := do
  let file := (← get).file
  if !file.multistream || file.dataPaths.isEmpty then return 0
  else
    change fun file => { file with rr := file.rr + 1 }
    return file.dataPaths.getD (file.rr % file.dataPaths.length) 0

section Operations

variable (python : Builtins)

def move (single : Move Ambient) : Op Ambient Unit :=
  modify fun process => Process.note { process with world := step python single process.world }

def moveAll : List (Move Ambient) → Op Ambient Unit
  | [] => pure ()
  | single :: rest => do
      move python single
      moveAll rest

/-- `self._router.execute(request, path=path)`, one turn of its loop after the other, for a
request with or without a handle in it. It answers with the session that answered. -/
def execute (path : Text) (bearing : Option Handle) :
    Request → Nat → Nat → List Round → Op Ambient Nat
  | _, _, _, [] => throw .running
  | request, hops, failed, round :: rest => do
      let process ← get
      let index := process.file.router
      match process.world.routers[index]? with
      | none => throw .running
      | some router =>
          let found := (process.world.session python index router round.dial).1
          let turn := turn python index path request hops failed round router process.world
          bear bearing found
          moveAll python turn.moves
          match turn.next, found with
          | .error .returned, .ok sid => return sid
          | .error ending, _ => throw (.ended ending)
          | .ok (request, hops, failed), _ => execute path bearing request hops failed rest

structure Talk where
  request : Request
  path : Text := []
  rounds : List Round

def talk (bearing : Option Handle) (talk : Talk) : Op Ambient Nat :=
  execute python talk.path bearing talk.request 0 0 talk.rounds

def session (dial : Option Exception) : Op Ambient Nat := do
  let process ← get
  match process.world.routers[process.file.router]? with
  | none => throw .running
  | some router =>
      move python (.session process.file.router dial)
      match (process.world.session python process.file.router router dial).1 with
      | .ok sid => return sid
      | .error error => throw (.raised error)

structure Opening where
  talk : Talk
  reply : Except Exception Bytes

def doOpen (opening : Opening) : Op Ambient Unit := do
  let sid ← talk python none opening.talk
  let process ← get
  let home := (process.world.routers[process.file.router]?).elim process.file.url Router.url
  move python (.pin process.file.router process.file.ownsRouter)
  change fun file => { file with router := process.world.routers.length }
  match opening.reply with
  | .error error => throw (.raised error)
  | .ok value => change fun file => { file with handle := some ⟨value, sid, home⟩ }

structure Bind where
  dial : Option Exception := none
  answer : Except Exception Nat

def bindDataPath (bind : Bind) : Op Ambient Nat := do
  let _ ← session python bind.dial
  match bind.answer with
  | .ok pathid => return pathid
  | .error error => throw (.raised error)

def bindDataStreams : List Bind → Op Ambient Unit
  | [] => pure ()
  | bind :: rest => do
      let file := (← get).file
      if file.dataPaths.length < file.dataStreams then
        let pathid ← tryCatch (bindDataPath python bind) fun _ => pure 0
        if pathid = 0 then pure ()
        else
          change fun file => { file with dataPaths := file.dataPaths ++ [pathid] }
          bindDataStreams rest
      else pure ()

/-- `if self._owns_router: self._router.close()`. -/
def releaseRouter : Op Ambient Unit := do
  let file := (← get).file
  if file.ownsRouter then move python (.close file.router) else pure ()

def openFile (writing : Bool) (opening : Opening) (binds : List Bind) : Op Ambient Unit := do
  let file := (← get).file
  if file.handle.isSome then valueError (file.name ++ str " is already open")
  else
    change fun file => { file with writing }
    tryCatch (do doOpen python opening; bindDataStreams python binds) fun failure => do
      releaseRouter python
      throw failure

/-- `self._router.execute(...)` of a request with the handle in it: `sync`, `truncate`,
`pgwrite`, `writev`, `setxattr`, `removexattr`, and what a checkpoint sends. -/
def direct (request : Talk) : Op Ambient Unit := do
  let handle ← handle
  let _ ← talk python (some handle) request

structure Recovery where
  opening : Opening
  binds : List Bind := []

/-- `if self._owns_router: stale.discard()`. -/
def discardRouter (stale : File) : Op Ambient Unit :=
  if stale.ownsRouter then move python (.drop stale.router) else pure ()

/-- `self._router = Router(self.url, self.config)`, and it is the file's own. -/
def freshRouter : Op Ambient Unit := do
  let process ← get
  move python (.create process.file.url process.file.config true)
  change fun file => { file with
    router := process.world.routers.length, ownsRouter := true, recoveries := file.recoveries + 1 }

def reopen (recovery : Recovery) : Op Ambient Unit := do
  let file := (← get).file
  change fun file => { file with
    handle := none, pathid := 0, dataPaths := [], rr := 0, multistream := true }
  discardRouter python file
  freshRouter python
  doOpen python recovery.opening
  bindDataStreams python recovery.binds

/-- A request that may be made again on a file that was opened again. -/
structure Executed where
  first : Talk
  recovery : Recovery
  again : Talk

/-- `_execute`: `stat`, `visa`, `getxattr`, `listxattr`, `pgread`, and each request of a
`readv`. -/
def executeHandle (input : Executed) : Op Ambient Unit :=
  tryCatch (direct python input.first) fun failure => do
    if failure.transient && (← get).file.recoverable then
      reopen python input.recovery
      direct python input.again
    else throw failure

/-- What a bulk request meets: on the control link when there is no data path for it, or
first on the data path it arrives on, and then as the specification has it. -/
structure Bulk where
  control : Executed
  dial : Option Exception := none
  arrives : Bool
  answer : Except Exception Unit
  lost : Bool := false
  binds : List Bind := []
  fallback : Executed
  split : Executed
  last : Executed

def lose (lost : Bool) (sid : Nat) : Op Ambient Unit :=
  if lost then move python (.lose sid) else pure ()

/-- `self._router.session.execute(build(self.handle, pathid), ...)`. -/
def onDataPath (input : Bulk) : Op Ambient Unit := do
  let sid ← session python input.dial
  let handle ← handle
  send sid (some handle)
  lose python input.lost sid
  match input.answer with
  | .ok _ => pure ()
  | .error error => throw (.raised error)

/-- The rest of `_bulk` once a request is put as the specification has it. -/
def splitBulk (input : Bulk) : Op Ambient Unit :=
  tryCatch (executeHandle python input.split) fun failure => do
    if !failure.caught || (← get).file.handle.isNone then throw failure
    else
      change fun file => { file with multistream := false }
      executeHandle python input.last

/-- `_bulk`: each chunk of a `read`, and of a `write` outside a checkpoint. -/
def bulk (input : Bulk) : Op Ambient Unit := do
  let pathid ← nextPath
  if pathid = 0 || (← get).file.checkpoint then executeHandle python input.control
  else
    let _ ← session python input.dial
    if input.arrives then
      let served ← tryCatch (do onDataPath python input; return true) fun failure =>
        if failure.caught then return false else throw failure
      if served then pure ()
      else
        change fun file => { file with dataPaths := file.dataPaths.erase pathid }
        bindDataStreams python input.binds
        let pathid ← nextPath
        if pathid = 0 then executeHandle python input.fallback else splitBulk python input
    else splitBulk python input

/-- `kXR_chkpoint` with `BEGIN`; a `write` from now on is `direct`. -/
def beginCheckpoint (request : Talk) : Op Ambient Unit := do
  let file := (← get).file
  if file.checkpoint then
    throw (.raised (.serverError .unsupported 3013
      (file.name ++ str " already has a checkpoint open") none))
  else
    direct python request
    change fun file => { file with checkpoint := true }

def endCheckpoint (request : Talk) : Op Ambient Unit := do
  change fun file => { file with checkpoint := false }
  direct python request

/-- `self._router.execute(...)` of a request without a handle. -/
def checksum (request : Talk) : Op Ambient Unit := do
  let _ ← talk python none request

/-- `bind_data_path`. -/
def bindPath (bind : Bind) : Op Ambient Unit := do
  if (← get).file.pathid = 0 then
    let pathid ← bindDataPath python bind
    change fun file => { file with pathid }
  else pure ()

def closeFile (request : Talk) : Op Ambient Unit := do
  let file := (← get).file
  change fun file => { file with handle := none }
  let farewell : Op Ambient Unit := match file.handle with
    | none => pure ()
    | some handle => tryCatch (do let _ ← talk python (some handle) request) fun failure =>
        if failure.transient then pure () else throw failure
  tryCatch farewell fun failure => do
    releaseRouter python
    throw failure
  releaseRouter python

def concerns : Move Ambient → Option Nat
  | .session index _ => some index
  | .follow index _ => some index
  | .drop index => some index
  | .pin index _ => some index
  | .close index => some index
  | _ => none

/-- What happens to a file: its operations, and what others do with other routers, with the
pool and with the sessions. -/
inductive Operation (Ambient : Type)
  | open_ (writing : Bool) (opening : Opening) (binds : List Bind)
  | direct (request : Talk)
  | execute (input : Executed)
  | bulk (input : Bulk)
  | beginCheckpoint (request : Talk)
  | endCheckpoint (request : Talk)
  | checksum (request : Talk)
  | bindPath (bind : Bind)
  | close (request : Talk)
  | elsewhere (single : Move Ambient)

def elsewhere (single : Move Ambient) : Op Ambient Unit := do
  let file := (← get).file
  if file.handle.isSome && concerns single = some file.router then pure ()
  else move python single

def Operation.program : Operation Ambient → Op Ambient Unit
  | .open_ writing opening binds => openFile python writing opening binds
  | .direct request => Handles.direct python request
  | .execute input => executeHandle python input
  | .bulk input => Handles.bulk python input
  | .beginCheckpoint request => Handles.beginCheckpoint python request
  | .endCheckpoint request => Handles.endCheckpoint python request
  | .checksum request => Handles.checksum python request
  | .bindPath bind => Handles.bindPath python bind
  | .close request => closeFile python request
  | .elsewhere single => Handles.elsewhere python single

def perform (operation : Operation Ambient) (process : Process Ambient) : Process Ambient :=
  final (operation.program python process)

end Operations

end XRootDClient.Handles

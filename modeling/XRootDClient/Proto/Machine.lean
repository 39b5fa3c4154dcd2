import XRootDClient.Auth.Ladder
import XRootDClient.Crypto.Sigver
import XRootDClient.Proto.Requests
import XRootDClient.Proto.Responses

/-!
# The sans-io session state machine

A direct transcription of `SessionMachine`: bring-up, stream multiplexing,
partial responses, waits, redirects and signing, with no input or output of its
own. A method that may raise is a computation in `Act`, which keeps the state
it had reached when the exception left it; the others are plain functions on
the machine. The inbound loop is cut at its own turns: `Framer.next` is what one
turn takes off a link's buffer, `turn` what the machine does with it.
-/

set_option autoImplicit false

namespace XRootDClient.Proto

open Lib Lib.BigEndian Auth Crypto

def sidProtocol : Nat := 1
def sidLogin : Nat := 2
def sidAuth : Nat := 3
def sidBind : Nat := 2
def firstSid : Nat := 4

inductive State
  | NEW
  | HANDSHAKE
  | PROTOCOL
  | TLS
  | LOGIN
  | AUTH
  | READY
  | FAILED
  | CLOSED
  | BIND
  deriving DecidableEq

def State.name : State → String
  | .NEW => "NEW"
  | .HANDSHAKE => "HANDSHAKE"
  | .PROTOCOL => "PROTOCOL"
  | .TLS => "TLS"
  | .LOGIN => "LOGIN"
  | .AUTH => "AUTH"
  | .READY => "READY"
  | .FAILED => "FAILED"
  | .CLOSED => "CLOSED"
  | .BIND => "BIND"

def State.lower (state : State) : Text := (str state.name).map Char.toLower

def State.bringingUp : State → Bool
  | .HANDSHAKE | .PROTOCOL | .LOGIN | .AUTH | .BIND => true
  | _ => false

inductive Event
  | negotiated (info : ProtocolInfo)
  | needTls (reason : Text)
  | ready (sessionId : Bytes) (mechanism : Text)
  | completed (streamid : Nat) (request : Request) (data : Bytes) (status : Option StatusInfo)
  | chunk (streamid : Nat) (request : Request) (data : Bytes)
  | redirected (streamid : Nat) (request : Request) (target : RedirectInfo)
  | waiting (streamid : Nat) (request : Request) (seconds : ℚ) (message : Text) (resend : Bool)
  | attention (info : AttnInfo)
  | failed (streamid : Option Nat) (request : Option Request) (error : Exception)
  | pathLost (pathid : Nat) (reason : Text)
  | disconnected (reason : Text)
  deriving DecidableEq

structure Pending where
  request : Request
  frame : Bytes
  buffer : Bytes := []
  status : Option StatusInfo := none
  path : Text := []
  pathid : Nat := 0
  pathBytes : Bytes := []
  deriving DecidableEq

structure Framer where
  buffer : Bytes := []
  header : Option ResponseHeader := none
  needTrailer : Int := 0
  trailerFor : Option Nat := none
  deriving DecidableEq

/-- `items[:count]`, where a negative count leaves that many off the end. -/
def sliceTo {Item : Type} (items : List Item) (count : Int) : List Item :=
  if 0 ≤ count then items.take count.toNat else items.take (items.length - (-count).toNat)

def sliceFrom {Item : Type} (items : List Item) (count : Int) : List Item :=
  if 0 ≤ count then items.drop count.toNat else items.drop (items.length - (-count).toNat)

inductive Turn
  | waits (framer : Framer)
  | raises (error : Exception)
  | trailer (sid : Option Nat) (data : Bytes) (framer : Framer)
  | frame (header : ResponseHeader) (body : Bytes) (framer : Framer)

namespace Framer

def takeBody (framer : Framer) (header : ResponseHeader) : Turn :=
  if framer.buffer.length < header.dlen then .waits framer
  else .frame header (framer.buffer.take header.dlen)
    { framer with buffer := framer.buffer.drop header.dlen, header := none }

def next (framer : Framer) : Turn :=
  if framer.needTrailer ≠ 0 then
    if (framer.buffer.length : Int) < framer.needTrailer then .waits framer
    else .trailer framer.trailerFor (sliceTo framer.buffer framer.needTrailer)
      { framer with
        buffer := sliceFrom framer.buffer framer.needTrailer
        needTrailer := 0
        trailerFor := none }
  else
    match framer.header with
    | some header => framer.takeBody header
    | none =>
        if framer.buffer.length < RESPONSE_HDRLEN then .waits framer
        else
          match decodeHeader (framer.buffer.take RESPONSE_HDRLEN) with
          | .error error => .raises error
          | .ok header =>
              takeBody { framer with
                header := some header
                buffer := framer.buffer.drop RESPONSE_HDRLEN } header

end Framer

structure Machine (Body : Type) where
  host : Text
  port : Nat
  config : Config
  username : Text
  wantTls : Bool
  bindTo : Bytes
  pathid : Nat := 0
  state : State := .NEW
  protocolInfo : ProtocolInfo := {}
  sessionId : Bytes := []
  mechanism : Text := []
  signer : Option Signer := none
  tlsActive : Bool := false
  out : Bytes := []
  outPath : Dict Nat Bytes := ∅
  events : List Event := []
  pending : Dict Nat Pending := ∅
  /-- Released stream ids, the last one released first. -/
  free : List Nat := []
  nextSid : Nat := firstSid
  framers : Dict Nat Framer := (∅ : Dict Nat Framer).set 0 {}
  credentials : Option (Ladder Body) := none
  credential : Option (Credential Body) := none
  authRejected : Dict Text Text := ∅
  offered : List Text := []
  deriving DecidableEq

abbrev Act (Body : Type) := EStateM Exception (Machine Body)

namespace Machine

variable {Body : Type}

/-- `SessionMachine(...)`. -/
def new (host : Text) (port : Nat) (config : Config) (credentials : Option (List (Credential Body)))
    (username : Text) (wantTls : Bool) (bindTo : Bytes) : Machine Body where
  host := host
  port := port
  config := config
  username := if username = [] then config.username else username
  wantTls := wantTls || config.requireTls
  bindTo := bindTo
  credentials := credentials.map fun given => { rungs := given.map .ready }

def attempt {Value : Type} : Except Exception Value → Act Body Value
  | .ok value => pure value
  | .error error => throw error

def emit (event : Event) (machine : Machine Body) : Machine Body :=
  { machine with events := machine.events ++ [event] }

/-- `self._out += encode(request, sid)`. -/
def queue (request : Request) (sid : Nat) : Act Body Unit := do
  let frame ← attempt (encode request sid)
  modify fun machine => { machine with out := machine.out ++ frame }

/-- `self._out_path.setdefault(pathid, bytearray()).extend(data)`. -/
def queuePath (pathid : Nat) (data : Bytes) (machine : Machine Body) : Machine Body :=
  { machine with
    outPath := machine.outPath.set pathid (machine.outPath.getD pathid [] ++ data) }

def fail (error : Exception) (machine : Machine Body) : Machine Body :=
  emit (.failed none none error) { machine with state := .FAILED }

def wrongState (call : String) (state : State) : Exception :=
  .protocolError (str call ++ str state.name)

def start : Act Body Unit := do
  let machine ← get
  if machine.state ≠ .NEW then
    throw (wrongState "start() called in state " machine.state)
  let flags := kXR_secreqs ||| kXR_ableTLS ||| (if machine.wantTls then kXR_wantTLS else 0)
  set { machine with out := machine.out ++ HANDSHAKE }
  queue (Request.Protocol flags) sidProtocol
  modify fun machine => { machine with state := .HANDSHAKE }

def dataToSend (machine : Machine Body) : Bytes × Machine Body :=
  (machine.out, { machine with out := [] })

def pathDataToSend (pathid : Nat) (machine : Machine Body) : Bytes × Machine Body :=
  (machine.outPath.getD pathid [], { machine with outPath := machine.outPath.erase pathid })

def nextEvent (machine : Machine Body) : Option Event × Machine Body :=
  (machine.events.head?, { machine with events := machine.events.tail })

def release (streamid : Nat) (machine : Machine Body) : Machine Body :=
  match machine.pending.get? streamid with
  | none => machine
  | some _ =>
      { machine with
        pending := machine.pending.erase streamid
        free := if firstSid ≤ streamid then streamid :: machine.free else machine.free }

def acquireSid : Act Body Nat := do
  let machine ← get
  match machine.free with
  | sid :: free =>
      set { machine with free := free }
      return sid
  | [] =>
      let sid := machine.nextSid
      let next := if machine.nextSid + 1 > 0xFFFF then firstSid else machine.nextSid + 1
      set { machine with nextSid := next }
      if machine.pending.contains sid then
        throw (.protocolError (str "stream id space exhausted"))
      return sid

/-- The frame of a request with its signature frame in front, if it needs one. -/
def sealed (request : Request) (sid : Nat) (frame : Bytes) : Act Body Bytes := do
  match (← get).signer with
  | none => return frame
  | some signer =>
      let (signed, signer) := signer.sign frame
      modify fun machine => { machine with signer := some signer }
      match ← attempt signed with
      | none => return frame
      | some (seqno, mac) =>
          let signature ← attempt (encode (Request.Sigver request.opcode seqno mac) sid)
          return signature ++ frame

def send (request : Request) (sid : Nat) (path : Text) (arriveOnPath : Bool) : Act Body Unit := do
  let frame ← sealed request sid (← attempt (encode request sid))
  let data := request.pathData
  modify fun machine => { machine with
    pending := machine.pending.set sid
      { request := request, frame := frame, path := path, pathid := request.pathid,
        pathBytes := data } }
  if arriveOnPath && request.pathid ≠ 0 then
    modify (queuePath request.pathid (frame ++ data))
  else
    modify fun machine => { machine with out := machine.out ++ frame }
    if data ≠ [] then
      modify (queuePath request.pathid data)

def submit (request : Request) (path : Text) (arriveOnPath : Bool) : Act Body Nat := do
  let machine ← get
  if machine.state ≠ .READY then
    throw (wrongState "cannot submit in state " machine.state)
  let sid ← acquireSid
  send request sid path arriveOnPath
  return sid

def resume (streamid : Nat) : Act Body Unit := do
  match (← get).pending.get? streamid with
  | none =>
      throw (.protocolError (str "stream " ++ Text.ofNat streamid ++ str " is not waiting"))
  | some pending =>
      modify fun machine => { machine with out := machine.out ++ pending.frame }
      if pending.pathBytes ≠ [] then
        modify (queuePath pending.pathid pending.pathBytes)

def close (graceful : Bool) : Act Body Unit := do
  let machine ← get
  if machine.state = .READY ∧ graceful ∧ machine.sessionId ≠ [] then
    let sid ← acquireSid
    queue (Request.EndSession machine.sessionId) sid
  modify fun machine => emit (.disconnected (str "closed by client"))
    { machine with state := .CLOSED }

section BringUp

variable [Exchange Body] (installation : Installation Body)

def becomeReady (machine : Machine Body) : Machine Body :=
  let key := machine.credential.bind fun credential => Exchange.sessionKey credential.body
  let signer := match key with
    | some (byte :: rest) =>
        some { key := byte :: rest
               level := machine.protocolInfo.securityLevel
               overrides := machine.protocolInfo.securityOverrides }
    | _ => machine.signer
  emit (.ready machine.sessionId machine.mechanism)
    { machine with state := .READY, signer := signer }

def beginLogin : Act Body Unit := do
  let machine ← get
  if machine.bindTo ≠ [] then
    set { machine with state := .BIND }
    queue (Request.Bind machine.bindTo) sidBind
  else
    set { machine with state := .LOGIN }
    queue (Request.Login machine.username installation.pid) sidLogin

/-- Whether the server's flags demand that this connection be encrypted. -/
def demandsTls (flags : Nat) : Bool :=
  flags &&& (kXR_gotoTLS ||| kXR_tlsLogin ||| kXR_tlsSess ||| kXR_tlsData) != 0

def hasTls (flags : Nat) : Bool := flags &&& kXR_haveTLS != 0

def afterProtocol : Act Body Unit := do
  let machine ← get
  let flags := machine.protocolInfo.flags
  let demanded := demandsTls flags
  if machine.wantTls || demanded then
    if !hasTls flags then
      set (fail (.protocolError (str "TLS required but " ++ machine.host ++ str ":" ++
        Text.ofNat machine.port ++ str " does not offer it (flags 0x" ++ Text.ofHex 8 flags ++
        str ")")) machine)
    else
      set (emit (.needTls (str (if demanded then "server requested TLS" else "client policy")))
        { machine with state := .TLS })
  else beginLogin installation

def tlsEstablished : Act Body Unit := do
  let machine ← get
  if machine.state ≠ .TLS then
    throw (wrongState "tls_established() called in state " machine.state)
  set { machine with tlsActive := true }
  beginLogin installation

/-- `self._out += encode(r.Auth(name, blob), _SID_AUTH)`. -/
def queueAuth (name : Text) (blob : Bytes) : Act Body Unit := do
  queue (← attempt (Request.Auth name blob)) sidAuth

def noMechanism (machine : Machine Body) : Machine Body :=
  fail (.noMechanismError machine.offered machine.authRejected) machine

/-- `for cred in self._credentials`: each rung the generator comes to is either
skipped, or yields a credential whose first blob is sent, or one whose
`initial` raises and is recorded. -/
def climb : List (Rung Body) → Act Body Unit
  | [] => modify noMechanism
  | rung :: rest => do
      let machine ← get
      let ladder := machine.credentials.getD { rungs := [] }
      let (outcome, why) := ladder.reach installation rung machine.authRejected
      let ladder := ladder.after rung rest outcome
      set { machine with credentials := some ladder, authRejected := why }
      match ← attempt outcome with
      | none => climb rest
      | some credential =>
          let (blob, body) := Exchange.initial credential.body
          match blob with
          | .error error =>
              modify fun machine => { machine with
                authRejected := machine.authRejected.set credential.name error.describe }
              if ladder.rungs.isEmpty then modify noMechanism else climb rest
          | .ok blob =>
              modify fun machine => { machine with
                credential := some { credential with body := body }
                mechanism := credential.name }
              queueAuth credential.name blob

/-- Advances the ladder and sends the next mechanism's first blob. -/
def nextCredential (sec : Text) : Act Body Unit := do
  modify fun machine => { machine with
    credentials := some (machine.credentials.getD
      (select sec machine.config machine.username machine.host)) }
  climb installation ((← get).credentials.getD { rungs := [] }).rungs

def authStep (challenge : Bytes) : Act Body Unit := do
  let machine ← get
  match machine.credential with
  | none =>
      set (fail (.authenticationError (str "server sent kXR_authmore with no exchange open"))
        machine)
  | some credential =>
      let (blob, body) := Exchange.step credential.body challenge
      let why := match blob with
        | .error error => machine.authRejected.set credential.name error.describe
        | .ok _ => machine.authRejected
      set { machine with
        credential := some { credential with body := body }
        authRejected := why }
      match blob with
      | .ok (some blob) => queueAuth credential.name blob
      | _ =>
          modify fun machine => { machine with
            authRejected := machine.authRejected.setDefault credential.name
              (str "server asked for another round the mechanism cannot answer") }
          nextCredential installation []

def bringup (header : ResponseHeader) (body : Bytes) : Act Body Unit := do
  if header.status = kXR_error then
    let info ← attempt (parseError body)
    modify (fail (.serverError .serverError info.code info.message none))
  else if header.status ≠ kXR_ok ∧ header.status ≠ kXR_authmore then
    modify fun machine => fail (.protocolError (str "unexpected " ++ statusName header.status ++
      str " during " ++ machine.state.lower)) machine
  else
    match (← get).state with
    | .HANDSHAKE => modify fun machine => { machine with state := .PROTOCOL }
    | .PROTOCOL =>
        let info ← attempt (parseProtocol body)
        modify fun machine => emit (.negotiated info) { machine with protocolInfo := info }
        afterProtocol installation
    | .BIND =>
        let pathid ← attempt (parseBind body)
        modify fun machine => becomeReady { machine with pathid := pathid }
    | .LOGIN =>
        let login ← attempt (parseLogin body)
        modify fun machine => { machine with
          sessionId := login.sessid
          offered := login.mechanisms }
        if login.sec = [] then modify becomeReady
        else
          modify fun machine => { machine with state := .AUTH }
          nextCredential installation login.sec
    | _ =>
        if header.status = kXR_authmore then authStep installation body
        else modify becomeReady

end BringUp

def updatePending (sid : Nat) (pending : Pending) (machine : Machine Body) : Machine Body :=
  { machine with pending := machine.pending.set sid pending }

def serverError (info : ErrorInfo) (path : Text) : Exception :=
  let path := if path = [] then none else some path
  (Errors.raiseForStatus info.code info.message path).getD
    (.serverError .serverError info.code info.message path)

def onStatusData (sid : Nat) (data : Bytes) (machine : Machine Body) : Machine Body :=
  match machine.pending.get? sid with
  | none => machine
  | some pending =>
      match pending.status with
      | none => machine
      | some info =>
          if info.isFinal then
            emit (.completed sid pending.request (pending.buffer ++ data) (some info))
              (release sid machine)
          else
            emit (.chunk sid pending.request data)
              (updatePending sid { pending with buffer := pending.buffer ++ data } machine)

/-- Returns the framer of the link the response came on: a `kXR_status` with
data behind it tells that framer to collect the data. -/
def onResponse (header : ResponseHeader) (body : Bytes) (pending : Pending) (framer : Framer) :
    Act Body Framer := do
  let sid := header.streamid
  if header.status = kXR_ok then
    modify fun machine =>
      emit (.completed sid pending.request (pending.buffer ++ body) pending.status)
        (release sid machine)
    return framer
  else if header.status = kXR_oksofar then
    modify fun machine => emit (.chunk sid pending.request body)
      (updatePending sid { pending with buffer := pending.buffer ++ body } machine)
    return framer
  else if header.status = kXR_error then
    let info ← attempt (parseError body)
    modify fun machine =>
      emit (.failed (some sid) (some pending.request) (serverError info pending.path))
        (release sid machine)
    return framer
  else if header.status = kXR_redirect then
    let target ← attempt (parseRedirect body)
    modify (emit (.redirected sid pending.request target))
    return framer
  else if header.status = kXR_wait then
    let wait ← attempt (parseWait body)
    modify fun machine => emit (.waiting sid pending.request
      (min (wait.seconds : ℚ) machine.config.waitCap) wait.message true) machine
    return framer
  else if header.status = kXR_waitresp then
    let later ← attempt (parseWaitresp body)
    modify (emit (.waiting sid pending.request later.seconds [] false))
    return framer
  else if header.status = kXR_status then
    let info ← attempt (parseStatus body)
    modify (updatePending sid { pending with status := some info })
    if info.dlen ≠ 0 then
      return { framer with needTrailer := info.dlen, trailerFor := some sid }
    else
      modify (onStatusData sid [])
      return framer
  else
    modify fun machine => emit (.failed (some sid) (some pending.request)
      (.protocolError (str "unexpected response status " ++ statusName header.status)))
      (release sid machine)
    return framer

def unwrapAttn (body : Bytes) : Act Body (Option (ResponseHeader × Bytes)) := do
  let info ← attempt (parseAttn body)
  if info.action = kXR_asynresp ∧ body.length ≥ 16 then
    let inner ← attempt (decodeHeader ((body.drop 8).take 8))
    return some (inner, body.drop 16)
  else
    modify (emit (.attention info))
    return none

section Inbound

variable [Exchange Body] (installation : Installation Body)

/-- A response with its `kXR_attn` envelope, if any, already off. -/
def respond (header : ResponseHeader) (body : Bytes) (framer : Framer) : Act Body Framer := do
  let machine ← get
  if machine.state.bringingUp then
    bringup installation header body
    return framer
  else
    match machine.pending.get? header.streamid with
    | none => return framer
    | some pending => onResponse header body pending framer

def dispatch (header : ResponseHeader) (body : Bytes) (framer : Framer) : Act Body Framer := do
  if header.status = kXR_attn then
    match ← unwrapAttn body with
    | none => return framer
    | some (header, body) => respond installation header body framer
  else respond installation header body framer

def framer (machine : Machine Body) (pathid : Nat) : Framer := machine.framers.getD pathid {}

def storeFramer (pathid : Nat) (framer : Framer) (machine : Machine Body) : Machine Body :=
  { machine with framers := machine.framers.set pathid framer }

/-- One turn of `_parse`'s loop; the answer says whether it goes round again. -/
def turn (pathid : Nat) : Act Body Bool := do
  match ((← get).framer pathid).next with
  | .waits framer =>
      modify (storeFramer pathid framer)
      return false
  | .raises error => throw error
  | .trailer sid data framer =>
      modify (storeFramer pathid framer)
      match sid with
      | none => throw .assertionError
      | some sid =>
          modify (onStatusData sid data)
          return true
  | .frame header body framer =>
      modify (storeFramer pathid framer)
      let framer ← dispatch installation header body framer
      modify (storeFramer pathid framer)
      return true

/-- `_parse`, for as many turns as the fuel allows. -/
def parse (pathid : Nat) : Nat → Act Body Unit
  | 0 => pure ()
  | fuel + 1 => do
      if ← turn installation pathid then parse pathid fuel

/-- More turns than any buffer of this length can keep the loop going for. -/
def parseFuel (framer : Framer) : Nat := 2 * framer.buffer.length + 4

def onEof (machine : Machine Body) : Machine Body :=
  if machine.state = .CLOSED ∨ machine.state = .FAILED then machine
  else
    { machine with
      state := .CLOSED
      events := machine.events ++ machine.pending.entries.map (fun entry =>
        .failed (some entry.1) (some entry.2.request)
          (.connectionError (str "connection closed by peer"))) ++
        [.disconnected (str "connection closed by peer")]
      pending := ∅ }

/-- The streams whose request names a path, in the order of the table. -/
def streamsOn (pathid : Nat) (machine : Machine Body) : List (Nat × Pending) :=
  machine.pending.entries.filter fun entry => entry.2.pathid = pathid

def forgetPath (pathid : Nat) (machine : Machine Body) : Machine Body :=
  let released := (streamsOn pathid machine).foldl
    (fun machine entry => release entry.1 machine) machine
  { released with
    framers := released.framers.erase pathid
    outPath := released.outPath.erase pathid }

def onPathEof (pathid : Nat) (machine : Machine Body) : Machine Body :=
  let reason := str "data path " ++ Text.ofNat pathid ++ str " closed by peer"
  let failed := { machine with
    events := machine.events ++ (streamsOn pathid machine).map fun entry =>
      .failed (some entry.1) (some entry.2.request) (.connectionError reason) }
  emit (.pathLost pathid reason) (forgetPath pathid failed)

def receiveData (data : Bytes) (pathid : Nat) : Act Body Unit := do
  modify fun machine => { machine with framers := machine.framers.setDefault pathid {} }
  if data = [] then
    modify (if pathid = 0 then onEof else onPathEof pathid)
  else
    modify fun machine =>
      let framer := machine.framer pathid
      storeFramer pathid { framer with buffer := framer.buffer ++ data } machine
    parse installation pathid (parseFuel ((← get).framer pathid))

end Inbound

end Machine

end XRootDClient.Proto

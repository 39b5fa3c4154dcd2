import XRootDClient.Errors
import XRootDClient.Lib.Run
import XRootDClient.Proto.Responses
import XRootDClient.Session.Pool

/-!
# Routers

The routers of a process and the pool they share. A router has at most one session; it
dials or takes one out of the pool when it needs it, gives it back when it is done with
it or is redirected, and may share it with a router pinned to the same server. What a
server or the network does is given with the move that meets it.
-/

set_option autoImplicit false

namespace XRootDClient.Routing

open Lib Lib.Run Proto

/-- A session: whom it was brought up for, what the process saw around it then, and
whether it is over. -/
structure Session (Ambient : Type) where
  url : XRootDURL
  config : Config
  ambient : Ambient
  closed : Bool := false
  deriving DecidableEq

structure Router where
  url : XRootDURL
  config : Config
  reconnect : Bool := true
  session : Option Nat := none
  owns : Bool := true
  deriving DecidableEq

structure World (Ambient : Type) where
  sessions : List (Session Ambient) := []
  routers : List Router := []
  idle : Idle := ∅
  clock : ℚ := 0
  ambient : Ambient

def Router.endpoint (router : Router) : Text :=
  router.url.host ++ str ":" ++ Text.ofInt router.url.port

variable {Ambient : Type}

namespace World

variable (python : Builtins) (world : World Ambient)

def closed (sid : Nat) : Bool := (world.sessions[sid]?).elim true fun session => session.closed

/-- `session.close()`. -/
def closeSession (sid : Nat) : World Ambient :=
  { world with sessions := world.sessions.modify sid fun session => { session with closed := true } }

def closeAll (sids : List Nat) : World Ambient := sids.foldl closeSession world

def putRouter (index : Nat) (router : Router) : World Ambient :=
  { world with routers := world.routers.set index router }

/-- `SESSIONS.acquire(url, config)`. -/
def acquire (url : XRootDURL) (config : Config) : Option Nat × World Ambient :=
  let got := world.idle.acquire python world.closed world.clock url config
  (got.found, closeAll { world with idle := got.idle } got.stale)

/-- `SESSIONS.release(session, url, config)`. -/
def release (sid : Nat) (url : XRootDURL) (config : Config) : Bool × World Ambient :=
  let got := world.idle.release python world.closed world.clock sid url config
  (got.kept, closeAll { world with idle := got.idle } got.expired)

def clear : World Ambient := closeAll { world with idle := ∅ } world.idle.pooled

def forget : World Ambient := { world with idle := ∅ }

/-- `Session.connect(url, config=config)`, when the dialling ends as `dial` says. -/
def connect (url : XRootDURL) (config : Config) (dial : Option Exception) :
    Except Exception Nat × World Ambient :=
  match dial with
  | some error => (.error error, world)
  | none =>
      (.ok world.sessions.length,
        { world with sessions := world.sessions ++ [⟨url, config, world.ambient, false⟩] })

/-- The end of `Router.session`: a session out of the pool, or a new one. -/
def renew (index : Nat) (router : Router) (dial : Option Exception) :
    Except Exception Nat × World Ambient :=
  let router := { router with owns := true }
  match (world.putRouter index router).acquire python router.url router.config with
  | (some sid, world) => (.ok sid, world.putRouter index { router with session := some sid })
  | (none, world) =>
      match world.connect router.url router.config dial with
      | (.ok sid, world) => (.ok sid, world.putRouter index { router with session := some sid })
      | (.error error, world) => (.error error, world)

def session (index : Nat) (router : Router) (dial : Option Exception) :
    Except Exception Nat × World Ambient :=
  match router.session with
  | none => world.renew python index router dial
  | some sid =>
      if world.closed sid then
        if router.reconnect then (world.closeSession sid).renew python index router dial
        else
          (.error (.connectionError
            (str "the connection to " ++ router.endpoint ++ str " was lost")), world)
      else (.ok sid, world)

def close (index : Nat) (router : Router) : World Ambient :=
  let world := world.putRouter index { router with session := none, owns := true }
  match router.session with
  | none => world
  | some sid =>
      if router.owns then
        let (kept, world) := world.release python sid router.url router.config
        if kept then world else world.closeSession sid
      else world

def target (router : Router) (redirect : RedirectInfo) : XRootDURL :=
  router.url.evolve python (if redirect.port < 0 then str "roots" else router.url.scheme)
    redirect.host (if redirect.port = 0 then router.url.port else redirect.port.natAbs)

def follow (index : Nat) (router : Router) (redirect : RedirectInfo) : World Ambient :=
  (world.close python index router).putRouter index
    { router with url := target python router redirect, session := none, owns := true }

def drop (index : Nat) (router : Router) : World Ambient :=
  let world := match router.session with
    | none => world
    | some sid => world.closeSession sid
  world.putRouter index { router with session := none, owns := true }

def pin (index : Nat) (router : Router) (transfer : Bool) : World Ambient :=
  let pinned : Router :=
    { url := router.url, config := router.config, reconnect := false, session := router.session,
      owns := transfer || router.session.isNone }
  let world := if transfer then world.putRouter index { router with session := none } else world
  { world with routers := world.routers ++ [pinned] }

end World

/-- What happens to the routers and the pool, one atomic piece after the other. -/
inductive Move (Ambient : Type)
  | create (url : XRootDURL) (config : Config) (reconnect : Bool)
  | session (index : Nat) (dial : Option Exception)
  | follow (index : Nat) (redirect : RedirectInfo)
  | drop (index : Nat)
  | pin (index : Nat) (transfer : Bool)
  | close (index : Nat)
  | acquire (url : XRootDURL) (config : Config)
  | release (sid : Nat) (url : XRootDURL) (config : Config)
  | clear
  | forget
  | lose (sid : Nat)
  | wait (seconds : ℚ)
  | change (ambient : Ambient)

section Steps

variable (python : Builtins)

def World.onRouter (index : Nat) (act : Router → World Ambient) (world : World Ambient) :
    World Ambient :=
  (world.routers[index]?).elim world act

def step : Move Ambient → World Ambient → World Ambient
  | .create url config reconnect, world =>
      { world with routers := world.routers ++ [{ url, config, reconnect }] }
  | .session index dial, world => world.onRouter index fun router =>
      (world.session python index router dial).2
  | .follow index redirect, world => world.onRouter index fun router =>
      world.follow python index router redirect
  | .drop index, world => world.onRouter index fun router => world.drop index router
  | .pin index transfer, world => world.onRouter index fun router => world.pin index router transfer
  | .close index, world => world.onRouter index fun router => world.close python index router
  | .acquire url config, world => (world.acquire python url config).2
  | .release sid url config, world => (world.release python sid url config).2
  | .clear, world => world.clear
  | .forget, world => world.forget
  | .lose sid, world => world.closeSession sid
  | .wait seconds, world => { world with clock := world.clock + seconds }
  | .change ambient, world => { world with ambient }

structure Request where
  name : Text
  path : Option Text := none
  idempotent : Bool := true
  deriving DecidableEq

def retarget (request : Request) (token : Text) : Request :=
  match request.path with
  | none => request
  | some path =>
      if token = [] then request
      else { request with path := path ++ (if '?' ∈ path then str "&" else str "?") ++ token }

inductive Answer
  | returns
  | redirects (target : RedirectInfo)
  | waitsTooLong
  | raises (error : Exception)
  deriving DecidableEq

inductive Ending
  | returned
  | redirectLimitError (message : Text)
  | waitLimitError
  | timeoutError (message : Text) (attempts : Nat)
  | transientError (message : Text) (attempts : Nat)
  | raised (error : Exception)
  deriving DecidableEq

/-- One turn of the loop of `execute`: how a dialling ends if there is one, what the
session answers, and whether it is over by then. -/
structure Round where
  dial : Option Exception := none
  answer : Answer
  lost : Bool := false
  deriving DecidableEq

def isConnectionError : Exception → Bool
  | .connectionError _ => true
  | .timeoutError _ => true
  | .serverError .serverTimeout _ _ _ => true
  | _ => false

def isTimeoutError : Exception → Bool
  | .timeoutError _ => true
  | .serverError .serverTimeout _ _ _ => true
  | _ => false

def failure (request : Request) (router : Router) (error : Exception) (attempts : Nat) : Ending :=
  let message := request.name ++ str " on " ++ router.endpoint ++ str " failed: " ++ error.message
  if isTimeoutError error then .timeoutError message attempts else .transientError message attempts

def pause (config : Config) (attempts : Nat) : ℚ :=
  if 0 < config.retryBackoff then
    min (config.retryBackoff * 2 ^ (attempts - 1)) config.waitCap
  else 0

/-- `Router.execute`: the moves it makes, and how it ends; it is still running when its
rounds are used up. -/
def execute (index : Nat) (path : Text) : Request → Nat → Nat → List Round → World Ambient →
    List (Move Ambient) × Option Ending
  | _, _, _, [], _ => ([], none)
  | request, hops, attempts, round :: rest, world =>
      match world.routers[index]? with
      | none => ([], none)
      | some router =>
          let (found, _) := world.session python index router round.dial
          let done : List (Move Ambient) := match found with
            | .ok sid => .session index round.dial :: if round.lost then [.lose sid] else []
            | .error _ => [.session index round.dial]
          let answer := match found with
            | .ok _ => round.answer
            | .error error => .raises error
          match answer with
          | .returns => (done, some .returned)
          | .redirects target =>
              if router.config.redirectLimit < hops + 1 then
                (done, some (.redirectLimitError (str "more than " ++
                  Text.ofInt router.config.redirectLimit ++ str " redirects for " ++
                  request.name ++ str " " ++ path)))
              else
                let done := done ++ [.follow index target]
                let (later, ending) := execute index path (retarget request target.token)
                  (hops + 1) attempts rest (run (step python) done world)
                (done ++ later, ending)
          | .waitsTooLong => (done, some .waitLimitError)
          | .raises error =>
              if isConnectionError error then
                if !router.reconnect || router.config.connectRetries < attempts + 1 ||
                    !request.idempotent then
                  (done, some (failure request router error (attempts + 1)))
                else
                  let done := done ++
                    [.drop index, .wait (pause router.config (attempts + 1))]
                  let (later, ending) := execute index path request hops (attempts + 1) rest
                    (run (step python) done world)
                  (done ++ later, ending)
              else (done, some (.raised error))

/-- What a caller does: a single move, or a request that is carried through. -/
inductive Call (Ambient : Type)
  | move (single : Move Ambient)
  | execute (index : Nat) (request : Request) (path : Text) (rounds : List Round)

def Call.moves : Call Ambient → World Ambient → List (Move Ambient)
  | .move single, _ => [single]
  | .execute index request path rounds, world =>
      (Routing.execute python index path request 0 0 rounds world).1

def moves : List (Call Ambient) → World Ambient → List (Move Ambient)
  | [], _ => []
  | call :: rest, world =>
      call.moves python world ++ moves rest (run (step python) (call.moves python world) world)

end Steps

end XRootDClient.Routing

import XRootDClient.Auth.Discovery
import XRootDClient.Client.Url
import XRootDClient.Lib.Reference
import XRootDClient.Lib.Triple
import XRootDClient.Session.Pool

/-!
# Requests over HTTP

`HTTPClient.open`: the headers of a request, the connection it goes out on, the one
retry of a connection that had gone stale, the credential that is asked for once, and
the redirects that are followed. What a server answers is given, one attempt after the
other; a request behind the last of them is not answered.
-/

set_option autoImplicit false

namespace XRootDClient.Http

open Lib Lib.BigEndian Lib.Stateful Auth Url
open Client (Raises)
open Routing.XRootDURL (tlsSchemes)

def endpoint (url : XRootDURL) : Routing.XRootDURL where
  scheme := url.scheme
  host := url.host
  port := url.port
  username := url.username

def useTls (url : XRootDURL) : Bool := (endpoint url).useTls

theorem use_tls (url : XRootDURL) : useTls url = decide (url.scheme ∈ tlsSchemes) := rfl

structure Key where
  scheme : Text
  host : Text
  port : Int
  deriving DecidableEq

/-- `_key`. -/
def keyOf (url : XRootDURL) : Key where
  scheme := if useTls url then str "https" else str "http"
  host := url.host
  port := url.port

structure Connection where
  tls : Bool
  host : Text
  port : Int
  deriving DecidableEq

def connect (key : Key) : Connection where
  tls := key.scheme = str "https"
  host := key.host
  port := key.port

/-- The connections that are kept, each for the endpoint it was made for. -/
structure Pool where
  connections : Dict Key Connection
  made : ∀ key connection, connections.get? key = some connection → connection = connect key

namespace Pool

def empty : Pool := ⟨∅, fun _ _ found => by cases found⟩

def opened (pool : Pool) (key : Key) : Pool where
  connections := pool.connections.set key (connect key)
  made other connection found := by
    rw [Dict.get_set] at found
    split_ifs at found with same
    · cases found
      rw [same]
    · exact pool.made other connection found

def discard (pool : Pool) (key : Key) : Pool where
  connections := pool.connections.erase key
  made other connection found := by
    rw [Dict.get_erase] at found
    split_ifs at found
    exact pool.made other connection found

def connection (pool : Pool) (key : Key) : Connection × Pool :=
  match pool.connections.get? key with
  | some connection => (connection, pool)
  | none => (connect key, pool.opened key)

theorem connection_made (pool : Pool) (key : Key) : (pool.connection key).1 = connect key := by
  unfold connection
  split
  · rename_i found
    exact pool.made key _ found
  · rfl

end Pool

abbrev Headers := Dict Text Text

abbrev Signer := Text → XRootDURL → Headers → Option Bytes → Raises Headers

structure HTTPClient where
  config : Config
  pool : Pool
  signer : Option Signer

def authorization : Text := str "Authorization"

def folded (name : Text) : Text := name.map Char.toLower

def Names (headers : Headers) (name : Text) : Prop := ∃ key ∈ headers.keys, folded key = folded name

def removePrefix (front text : Text) : Text :=
  if front.isPrefixOf text then text.drop front.length else text

variable (python : Python) (process : Process)

def bearerToken (config : Config) (url : XRootDURL) : Raises (Option Text) :=
  match (truthy (url.query.get? authz)).or (truthy (url.query.get? (str "access_token"))) with
  | some given => .ok (some (Text.strip (removePrefix (str "Bearer ") given)))
  | none =>
      match truthy config.token with
      | some token => .ok (some token)
      | none =>
          let standing := truthy (process.environ (str "BEARER_TOKEN"))
          match truthy config.tokenFile with
          | none => .ok standing
          | some path => (process.files path).map fun read =>
              match read with
              | some content => truthy (some (Text.strip content))
              | none => standing

def standingHeaders : Headers :=
  (Dict.set ∅ (str "User-Agent") (str "xrd/1.0 (pure python)")).set (str "Accept") (str "*/*")

def headersFor (config : Config) (url : XRootDURL) (extra : Headers) : Raises Headers :=
  (bearerToken process config url).map fun token =>
    let headers := match truthy token with
      | some token => standingHeaders.set authorization (str "Bearer " ++ token)
      | none => standingHeaders
    headers.update extra.entries

def HTTPClient.sign (client : HTTPClient) (method : Text) (url : XRootDURL) (headers : Headers)
    (body : Option Bytes) : Raises Headers :=
  match client.signer with
  | none => .ok headers
  | some signer => (signer method url headers body).map fun signed => headers.update signed.entries

def HTTPClient.sentHeaders (client : HTTPClient) (method : Text) (url : XRootDURL)
    (body : Option Bytes) (extra : Headers) : Raises Headers := do
  client.sign method url (← headersFor process client.config url extra) body

/-- `quote(text, safe=...)`. -/
def quoteSafe (safe : Text) (text : Text) : Text :=
  text.flatMap fun char => if char ∈ safe then [char] else Percent.quote [char]

def requestTarget (url : XRootDURL) : Text :=
  let path := if url.path = [] then ['/'] else url.path
  let query := url.query.entries.filter fun entry =>
    entry.1 ∉ [authz, str "access_token"]
  quoteSafe (str "/:@!$&'()*+,;=~") path ++
    if query = [] then []
    else '?' :: Text.join ['&'] (query.map fun entry =>
      Percent.quote entry.1 ++ '=' :: Percent.quote entry.2)

structure HttpResponse where
  status : Int
  reason : Text := []
  location : Option Text := none
  wwwAuthenticate : Option Text := none
  unreadable : Option Exception := none

inductive Answer
  | response (response : HttpResponse)
  | broken (timedOut : Bool) (why : Text)

/-- What becomes of one request: a connection for it may have to be made, and that may
raise before anything is sent. -/
structure Attempt where
  unopened : Option Exception := none
  answer : Answer

structure Sent where
  method : Text
  connection : Connection
  target : Text
  headers : Headers
  body : Option Bytes
  retry : Bool

structure Wire where
  client : HTTPClient
  attempts : List Attempt
  log : List Sent := []

abbrev Act := EStateM Exception Wire

def lift {Value : Type} : Raises Value → Act Value
  | .ok value => pure value
  | .error raised => throw raised

def retryable : List Text :=
  [str "GET", str "HEAD", str "PUT", str "DELETE", str "OPTIONS", str "PROPFIND", str "MKCOL",
   str "MOVE", str "COPY"]

def repeatable (method : Text) (sent : Headers) : Bool :=
  method ∈ retryable && !sent.keys.any fun name => (str "if-").isPrefixOf (python.lower name)

def wrap (timedOut : Bool) (why method : Text) (url : XRootDURL) : Exception :=
  if timedOut then .timeoutError (method ++ str " " ++ url.toText ++ str " timed out")
  else .connectionError (method ++ str " " ++ url.toText ++ str " failed: " ++ why)

/-- A request on the connection for its endpoint; one that breaks is dropped. -/
def attempt (method : Text) (url : XRootDURL) (body : Option Bytes) (headers : Headers)
    (retry : Bool) : Act Answer := fun wire =>
  let pool := wire.client.pool
  let next := wire.attempts.head?.getD ⟨none, .broken true []⟩
  match pool.connections.get? (keyOf url), next.unopened with
  | none, some raised => .error raised { wire with attempts := wire.attempts.tail }
  | _, _ =>
      let (connection, pool) := pool.connection (keyOf url)
      let sent : Sent := ⟨method, connection, requestTarget url, headers, body, retry⟩
      let pool := match next.answer with
        | .response _ => pool
        | .broken _ _ => pool.discard (keyOf url)
      .ok next.answer
        { client := { wire.client with pool := pool }
          attempts := wire.attempts.tail
          log := wire.log ++ [sent] }

def once (method : Text) (url : XRootDURL) (body : Option Bytes) (extra : Headers) :
    Act HttpResponse := do
  let client := (← get).client
  let sent ← lift (client.sentHeaders process method url body extra)
  match ← attempt method url body sent false with
  | .response response => return response
  | .broken timedOut why =>
      if repeatable python method sent then
        match ← attempt method url body sent true with
        | .response response => return response
        | .broken timedOut why => throw (wrap timedOut why method url)
      else throw (wrap timedOut why method url)

section Asking

variable {Body : Type} (installation : Installation Body)

def supply (name : Text) (config : Config) (host : Text) : Raises (Option Config) :=
  match installation.registry name with
  | none => .ok none
  | some mechanism =>
      if interactive installation config then
        match mechanism.missing ⟨name, []⟩ config config.username host with
        | .error _ | .ok none => .ok none
        | .ok (some question) =>
            match truthy (installation.answerFor 0 question config) with
            | none => .ok none
            | some answer => (mechanism.using_ answer config).map some
      else .ok none

/-- The settings of the first mechanism of these that somebody gives the material for. -/
def supplied (config : Config) (host : Text) : List Text → Raises (Option Config)
  | [] => .ok none
  | name :: rest => do
      match ← supply installation name config host with
      | some config => return some config
      | none => supplied config host rest

def askForCredentials (url : XRootDURL) (response : HttpResponse) : Act Bool := do
  let client := (← get).client
  let challenge := python.lower (response.wwwAuthenticate.getD [])
  let wanted := if str "bearer" <:+: challenge ∨ useTls url = false then [str "ztn"]
    else [str "gsi", str "ztn"]
  match ← lift (supplied installation client.config url.host wanted) with
  | none => return false
  | some config =>
      modify fun wire => { wire with client := { client with config := config, pool := .empty } }
      return true

variable (netlocs : Reference.Netlocs)

def redirect (current : XRootDURL) (location : Text) : Raises XRootDURL :=
  if (Percent.splitScheme location).isSome then parse python location
  else
    match Reference.urljoin netlocs
        ((keyOf current).scheme ++ str "://" ++ current.netloc ++ current.path) location with
    | .error message => .error (.valueError message)
    | .ok joined => do
        let url ← parse python joined
        return url.evolve python
          { username := some current.username, password := some current.password }

def redirects : List Int := [301, 302, 303, 307, 308]

/-- `_ERRORS`. -/
def statusErrors : List (Int × Int) :=
  [(400, 3000), (401, 3010), (403, 3010), (404, 3011), (405, 3013), (409, 3011), (410, 3011),
   (412, 3018), (416, 3000), (423, 3003), (429, 3003), (501, 3013), (503, 3003), (507, 3009)]

def statusCode (status : Int) (errors : List (Int × Int)) : Int :=
  let own := (errors.lookup status).bind fun code => if code = 0 then none else some code
  match own.or (statusErrors.lookup status) with
  | some code => code
  | none => if status ≥ 500 then 3012 else 3000

def checkStatus (response : HttpResponse) (url : XRootDURL) (expect : List Int)
    (errors : List (Int × Int)) : Option Exception :=
  if (if expect = [] then response.status < 400 else response.status ∈ expect) then none
  else Errors.raiseForStatus (statusCode response.status errors)
    (str "HTTP " ++ Text.ofInt response.status ++ str " " ++ response.reason) (some url.path)

/-- What `open` is about to ask, whether it has asked for a credential, and the Locations
it has followed. -/
structure Call where
  method : Text
  body : Option Bytes
  target : XRootDURL
  asked : Bool := false
  trail : List Text := []

/-- What the caller gave beside the method, the URL and the body. -/
structure Options where
  headers : Headers := ∅
  expect : List Int := []
  errors : List (Int × Int) := []

/-- `response.read()`. -/
def drain (response : HttpResponse) : Act Unit :=
  match response.unreadable with
  | some raised => throw raised
  | none => pure ()

/-- What is done with a response that is not asked a credential for: a redirect is
followed, anything else returned or raised. -/
def settle (options : Options) (call : Call) (response : HttpResponse) :
    Act (Call ⊕ HttpResponse) :=
  match truthy response.location with
  | some location =>
      if response.status ∈ redirects then do
        drain response
        let target ← lift (redirect python netlocs call.target location)
        let call := { call with target := target, trail := call.trail ++ [location] }
        return .inl (if response.status = 303 then { call with method := str "GET", body := none }
          else call)
      else finish
  | none => finish
where
  finish := match checkStatus response call.target options.expect options.errors with
    | none => return .inr response
    | some raised => do
        drain response
        throw raised

def turn (options : Options) (call : Call) : Act (Call ⊕ HttpResponse) := do
  let response ← once python process call.method call.target call.body options.headers
  if response.status = 401 ∧ call.asked = false then
    let call := { call with asked := true }
    if ← askForCredentials python installation call.target response then
      drain response
      return .inl call
    else settle python netlocs options call response
  else settle python netlocs options call response

def openFrom (options : Options) (limit : Text) : Nat → Call → Act HttpResponse
  | 0, _ => throw (.foreign (str "RedirectLimitError") limit)
  | fuel + 1, call => do
      match ← turn python process installation netlocs options call with
      | .inl call => openFrom options limit fuel call
      | .inr response => return response

def open_ (method : Text) (url : XRootDURL) (body : Option Bytes) (options : Options) :
    Act HttpResponse := do
  let limit := (← get).client.config.redirectLimit
  openFrom python process installation netlocs options
    (str "more than " ++ Text.ofInt limit ++ str " redirects for " ++ url.toText)
    (limit + 1).toNat { method, body, target := url }

end Asking

end XRootDClient.Http

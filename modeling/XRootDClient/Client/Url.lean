import Mathlib
import XRootDClient.Client.Walk
import XRootDClient.Lib.Percent
import XRootDClient.Lib.Repr
import XRootDClient.Lib.Run

/-!
# Storage URLs

`XRootDURL` with everything it holds: how it is read from a text, derived from another
one, written, and shown with its secrets blotted out; and how a filesystem makes the
path and the URL of what it is asked for from its own URL. A URL is made with scheme and
host in lower case, each time it is made.
-/

set_option autoImplicit false

namespace XRootDClient.Url

open Lib Lib.Percent

/-- What is taken from the interpreter: `str.lower`, `int`, the table of printable
characters, and the working directory. -/
structure Python where
  lower : Text → Text
  int : Text → Option Int
  printable : Char → Bool
  cwd : Text

/-- What `str.lower` is relied on for: it changes nothing the second time, and no
lower-case letter or digit at all. -/
structure Python.Lowers (python : Python) : Prop where
  again : ∀ text, python.lower (python.lower text) = python.lower text
  plain : ∀ text : Text, text.all (fun char => char.isLower || char.isDigit) →
    python.lower text = text

@[ext] structure XRootDURL where
  scheme : Text := str "root"
  host : Text := []
  port : Int := 1094
  path : Text := ['/']
  username : Text := []
  password : Text := []
  query : Dict Text Text := ∅
  deriving DecidableEq

def rootSchemes : List Text :=
  [str "root", str "roots", str "xroot", str "xroots", str "xrootd"]

def s3Schemes : List Text := [str "s3"]

def fileScheme : Text := str "file"

def authz : Text := str "authz"

def redaction : Text := str "<redacted>"

section Reading

variable (python : Python)

def postInit (url : XRootDURL) : XRootDURL :=
  { url with scheme := python.lower url.scheme, host := python.lower url.host }

def abspath (path : Text) : Text :=
  Posix.normpath (if path.head? = some '/' then path else Posix.join python.cwd path)

/-- The user name and the password in front of the last `@`, decoded, and what stands
behind it. -/
def credentials (authority : Text) : Text × Text × Text :=
  let (userinfo, _, hostport) := rpartition '@' authority
  if userinfo = [] then ([], [], hostport)
  else
    let (username, _, password) := Text.partition ':' userinfo
    (unquote username, unquote password, hostport)

def hostAndPort (hostport : Text) : Text × Text :=
  if hostport.head? = some '[' then
    let (host, _, port) := Text.partition ']' hostport.tail
    (host, port.dropWhile (· = ':'))
  else
    let (host, _, port) := Text.partition ':' hostport
    (host, port)

def defaultPort (scheme : Text) : Int :=
  if scheme ∈ [str "https", str "davs", str "webdav", str "s3"] then 443
  else if scheme ∈ [str "http", str "dav"] then 80
  else 1094

def portOf (scheme port : Text) : Option Int :=
  if port = [] then some (defaultPort scheme) else python.int port

def target (sep : Bool) (tail : Text) : Text × Dict Text Text :=
  let (path, _, cgi) := Text.partition '?' (if sep then '/' :: tail else ['/'])
  (path, if cgi = [] then ∅ else Dict.update ∅ (parseQsl cgi))

def parseRest (text scheme rest : Text) : Client.Raises XRootDURL :=
  let (authority, sep, tail) := Text.partition '/' rest
  let (username, password, hostport) := credentials authority
  let (host, port) := hostAndPort hostport
  match portOf python scheme port with
  | none => .error (.foreign (str "ValueError")
      (str "invalid port in URL " ++ Repr.text python.printable text))
  | some port =>
      let (path, query) := target sep tail
      .ok (postInit python
        { scheme, host, port, path := Client.normalize path, username, password, query })

def parse (text : Text) : Client.Raises XRootDURL :=
  match splitScheme text with
  | none => .ok (postInit python
      { scheme := fileScheme, host := [], port := 0, path := abspath python text })
  | some (scheme, rest) =>
      if python.lower scheme = fileScheme then
        .ok (postInit python
          { scheme := fileScheme, host := [], port := 0
            path := if rest = [] then ['/'] else rest })
      else parseRest python text (python.lower scheme) rest

theorem parse_rest_scheme {python : Python} {text scheme rest : Text} {url : XRootDURL}
    (read : parseRest python text scheme rest = .ok url) : url.scheme = python.lower scheme := by
  unfold parseRest at read
  dsimp only at read
  split at read
  · cases read
  · cases read
    rfl

theorem parse_scheme {python : Python} (lowers : python.Lowers) {text : Text} {url : XRootDURL}
    (read : parse python text = .ok url) :
    url.scheme = match splitScheme text with
      | none => fileScheme
      | some (scheme, _) => python.lower scheme := by
  have local_ : python.lower fileScheme = fileScheme := lowers.plain _ (by decide)
  unfold parse at read
  cases found : splitScheme text with
  | none =>
      rw [found] at read
      cases read
      exact local_
  | some parts =>
      rw [found] at read
      dsimp only at read ⊢
      by_cases file : python.lower parts.1 = fileScheme
      · rw [if_pos file] at read
        cases read
        rw [file]
        exact local_
      · rw [if_neg file] at read
        rw [parse_rest_scheme read, lowers.again]

end Reading

structure Changes where
  scheme : Option Text := none
  host : Option Text := none
  port : Option Int := none
  path : Option Text := none
  username : Option Text := none
  password : Option Text := none
  query : Option (Dict Text Text) := none

namespace XRootDURL

variable (python : Python) (url : XRootDURL)

def evolve (changes : Changes) : XRootDURL :=
  postInit python
    { scheme := changes.scheme.getD url.scheme
      host := changes.host.getD url.host
      port := changes.port.getD url.port
      path := changes.path.getD url.path
      username := changes.username.getD url.username
      password := changes.password.getD url.password
      query := changes.query.getD url.query }

def withPath (path : Text) : XRootDURL := postInit python { url with path := Client.normalize path }

def join (parts : List Text) : XRootDURL := url.withPath python (parts.foldl Posix.join url.path)

/-- `url / part`. -/
def truediv (part : Text) : XRootDURL := url.join python [part]

/-- `with_query`: a keyword that is `None` is passed over. -/
def withQuery (params : Dict Text (Option Text)) : XRootDURL :=
  let given := params.entries.filterMap fun entry => entry.2.map fun value => (entry.1, value)
  postInit python { url with query := url.query.update given }

end XRootDURL

namespace XRootDURL

variable (url : XRootDURL)

def netloc : Text :=
  (if ':' ∈ url.host then '[' :: url.host ++ [']'] else url.host) ++ ':' :: Text.ofInt url.port

/-- The user name and the password, encoded, with the `@` behind them. -/
def auth : Text :=
  if url.username = [] then []
  else
    quote url.username ++ (if url.password = [] then [] else ':' :: quote url.password) ++ ['@']

/-- The host as it is written, and the path behind its slashes. -/
def place : Text :=
  (if url.scheme ∈ s3Schemes then url.host else url.netloc) ++
    (if url.scheme ∈ rootSchemes then ['/', '/'] else ['/']) ++ Posix.lstrip url.path

def cgiPart : Text :=
  if url.query.entries = [] then [] else '?' :: urlencode url.query.entries

/-- `__str__`. -/
def toText : Text :=
  if url.scheme = fileScheme then str "file://" ++ url.path
  else url.scheme ++ str "://" ++ url.auth ++ url.place ++ url.cgiPart

variable (python : Python)

def redacted : XRootDURL :=
  if url.password ≠ [] ∨ url.query.contains authz then
    postInit python
      { url with
        password := if url.password = [] then [] else redaction
        query := url.query.mapEntries fun key value => if key = authz then redaction else value }
  else url

def repr : Text :=
  str "XRootDURL(" ++ Repr.text python.printable (url.redacted python).toText ++ str ")"

end XRootDURL

def cgi (explicit : Text) (inherited : Dict Text Text) : Text :=
  let alone := if explicit = [] then [] else '?' :: explicit
  if inherited.entries = [] then alone
  else
    let named := (parseQsl explicit).map Prod.fst
    let extra := urlencode (inherited.entries.filter fun entry => entry.1 ∉ named)
    if extra = [] then alone
    else if explicit = [] then '?' :: extra
    else '?' :: explicit ++ '&' :: extra

namespace XRootDURL

variable (python : Python) (url : XRootDURL)

def abs (path : Text) : Text :=
  let (base, sep, given) := Text.partition '?' path
  let base :=
    if base.head? = some '/' then base
    else Posix.join (if url.path = [] then ['/'] else url.path) base
  Posix.normpath base ++ cgi (if sep then given else []) url.query

def urlFor (path : Text) : XRootDURL :=
  url.evolve python { path := some (url.abs path), query := some ∅ }

/-- A walk's filesystem at this URL makes the same paths: what it takes along is what the
URL's query adds. -/
theorem abs_filesystem (fs : Client.FileSystem) (here : fs.path = url.path)
    (data : fs.data = Client.rootOpaque fun explicit => urlencode
      (url.query.entries.filter fun entry => entry.1 ∉ (parseQsl explicit).map Prod.fst))
    (path : Text) : fs.abs path = url.abs path := by
  have some : url.path ≠ [] := by
    intro none
    have rooted := fs.rooted
    rw [here, none] at rooted
    cases rooted
  unfold Client.FileSystem.abs XRootDURL.abs cgi
  rw [data, here, if_neg some]
  dsimp only [Client.rootOpaque]
  apply congrArg₂ _ rfl
  by_cases none : url.query.entries = []
  · rw [if_pos none, none]
    rfl
  · rw [if_neg none]

end XRootDURL

def asciiOnly : Python where
  lower text := text.map Char.toLower
  int text :=
    if text.all Char.isDigit then
      some (text.foldl (fun value char => value * 10 + (char.toNat - '0'.toNat)) 0)
    else none
  printable _ := true
  cwd := str "/"

theorem lower_fixed {char : Char} (other : char.isUpper = false) : char.toLower = char := by
  unfold Char.toLower
  rw [dif_neg]
  intro upper
  simp [Char.isUpper] at other
  exact absurd upper.2 (by simpa using other upper.1)

theorem ascii_lowers : asciiOnly.Lowers where
  again text := by
    have same : ∀ char ∈ text, (Char.toLower ∘ Char.toLower) char = Char.toLower char :=
      fun char _ => lower_fixed char.isUpper_toLower_eq_false
    exact (List.map_map).trans (List.map_congr_left same)
  plain text small := by
    have same : ∀ char ∈ text, Char.toLower char = id char := by
      intro char member
      have either := List.all_eq_true.mp small char member
      apply lower_fixed
      simp only [Char.isLower, Char.isDigit, Char.isUpper, Bool.or_eq_true, Bool.and_eq_true,
        decide_eq_true_eq, decide_eq_false_iff_not,
        UInt32.le_iff_toNat_le, ge_iff_le] at either ⊢
      have codes : 'a'.val.toNat = 97 ∧ '9'.val.toNat = 57 ∧ 'A'.val.toNat = 65 ∧
          'Z'.val.toNat = 90 := by decide
      omega
    exact (List.map_congr_left same).trans (List.map_id text)

end XRootDClient.Url

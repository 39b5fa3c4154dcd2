import XRootDClient.Lib.Percent
import XRootDClient.Lib.Stateful

/-!
# References

`urlsplit`, `urlunsplit` and `urljoin` of `urllib.parse`, for the schemes `http` and
`https` a base has. A reference either names a scheme of its own that differs, and is
then the answer as it stands, or what is joined begins with the scheme of the base.
-/

set_option autoImplicit false

namespace XRootDClient.Lib.Reference

/-- The schemes that may be joined to, that have a network location and that have
parameters. -/
def usesRelative : List Text :=
  [[], str "ftp", str "http", str "gopher", str "nntp", str "imap", str "wais", str "file",
   str "https", str "shttp", str "mms", str "prospero", str "rtsp", str "rtsps", str "rtspu",
   str "sftp", str "svn", str "svn+ssh", str "ws", str "wss"]

def usesNetloc : List Text :=
  [[], str "ftp", str "http", str "gopher", str "nntp", str "telnet", str "imap", str "wais",
   str "file", str "mms", str "https", str "shttp", str "snews", str "prospero", str "rtsp",
   str "rtsps", str "rtspu", str "rsync", str "svn", str "svn+ssh", str "sftp", str "nfs",
   str "git", str "git+ssh", str "ws", str "wss"]

def usesParams : List Text :=
  [[], str "ftp", str "hdl", str "prospero", str "http", str "imap", str "https", str "shttp",
   str "rtsp", str "rtsps", str "rtspu", str "sip", str "sips", str "mms", str "sftp", str "tel"]

/-- `SplitResult`, with the parameters that `urlparse` takes off the path. -/
structure Parts where
  scheme : Text
  netloc : Text
  path : Text
  params : Text := []
  query : Text
  fragment : Text
  deriving DecidableEq

def controlOrSpace (char : Char) : Bool := char.toNat ≤ 0x20

def removed (char : Char) : Bool := char = '\t' || char = '\r' || char = '\n'

def cleaned (url : Text) : Text := (url.dropWhile controlOrSpace).filter fun char => !removed char

def letter (char : Char) : Bool :=
  ('a' ≤ char && char ≤ 'z') || ('A' ≤ char && char ≤ 'Z')

def schemeChar (char : Char) : Bool :=
  letter char || ('0' ≤ char && char ≤ '9') || char = '+' || char = '-' || char = '.'

/-- A scheme in front of the first colon, in lower case, and the rest. -/
def cutScheme (given url : Text) : Text × Text :=
  let (head, found, rest) := Text.partition ':' url
  if found && (head.head?.any letter) && head.all schemeChar then (head.map Char.toLower, rest)
  else (given, url)

def delimits (char : Char) : Bool := char = '/' || char = '?' || char = '#'

def cutNetloc (url : Text) : Text × Text :=
  if url.take 2 = ['/', '/'] then
    ((url.drop 2).takeWhile fun char => !delimits char,
      (url.drop 2).dropWhile fun char => !delimits char)
  else ([], url)

/-- Parameters behind a semicolon in the last segment of a path. -/
def cutParams (path : Text) : Text × Text :=
  let (front, found, last) := Percent.rpartition '/' path
  let (kept, _, params) := Text.partition ';' last
  (if found then front ++ '/' :: kept else kept, params)

/-- Why a network location is refused: brackets that do not match, an address between
them, or characters that stand for others. -/
structure Netlocs where
  refused : Text → Option Text

variable (netlocs : Netlocs)

def urlparse (url given : Text) : Except Text Parts :=
  let (scheme, rest) := cutScheme given (cleaned url)
  let (netloc, rest) := cutNetloc rest
  match netlocs.refused netloc with
  | some message => .error message
  | none =>
      let (rest, _, fragment) := Text.partition '#' rest
      let (path, _, query) := Text.partition '?' rest
      let (path, params) := if scheme ∈ usesParams && ';' ∈ path then cutParams path else (path, [])
      .ok { scheme, netloc, path, params, query, fragment }

def urlunparse (parts : Parts) : Text :=
  let url := if parts.params = [] then parts.path else parts.path ++ ';' :: parts.params
  let url :=
    if parts.netloc ≠ [] ∨ (parts.scheme ≠ [] ∧ parts.scheme ∈ usesNetloc) ∨
        url.take 2 = ['/', '/'] then
      '/' :: '/' :: parts.netloc ++
        (if url ≠ [] ∧ url.head? ≠ some '/' then '/' :: url else url)
    else url
  (if parts.scheme = [] then url else parts.scheme ++ ':' :: url) ++
    (if parts.query = [] then [] else '?' :: parts.query) ++
    (if parts.fragment = [] then [] else '#' :: parts.fragment)

/-- One segment of a path that is resolved: two dots take the last one off. -/
def resolve (done : List Text) (segment : Text) : List Text :=
  if segment = ['.', '.'] then done.dropLast
  else if segment = ['.'] then done
  else done ++ [segment]

def segments (base path : Text) : List Text :=
  if path.head? = some '/' then path.splitOn '/'
  else
    let front := base.splitOn '/'
    let front := if front.getLast? = some [] then front else front.dropLast
    let all := front ++ path.splitOn '/'
    all.take 1 ++ (all.drop 1).dropLast.filter (· ≠ []) ++ (all.drop 1).getLast?.toList

def resolved (base path : Text) : Text :=
  let segments := segments base path
  let done := segments.foldl resolve []
  let done := if segments.getLast? ∈ [some ['.'], some ['.', '.']] then done ++ [[]] else done
  let joined := Text.join ['/'] done
  if joined = [] then ['/'] else joined

def urljoin (base url : Text) : Except Text Text :=
  if base = [] then .ok url
  else if url = [] then .ok base
  else do
    let from_ ← urlparse netlocs base []
    let onto ← urlparse netlocs url from_.scheme
    if onto.scheme ≠ from_.scheme ∨ onto.scheme ∉ usesRelative then return url
    else if onto.scheme ∈ usesNetloc ∧ onto.netloc ≠ [] then return urlunparse onto
    else
      let netloc := if onto.scheme ∈ usesNetloc then from_.netloc else onto.netloc
      if onto.path = [] ∧ onto.params = [] then
        return urlunparse { onto with
          netloc := netloc
          path := from_.path
          params := from_.params
          query := if onto.query = [] then from_.query else onto.query }
      else return urlunparse { onto with netloc := netloc, path := resolved from_.path onto.path }

/-- A scheme that has everything a scheme may have. -/
structure Web (scheme : Text) : Prop where
  starts : scheme.head?.any letter = true
  plain : scheme.all schemeChar = true
  lower : scheme.map Char.toLower = scheme
  relative : scheme ∈ usesRelative
  netloc : scheme ∈ usesNetloc

theorem web_http : Web (str "http") := ⟨by decide, by decide, by decide, by decide, by decide⟩

theorem web_https : Web (str "https") := ⟨by decide, by decide, by decide, by decide, by decide⟩

section Web

variable {netlocs} {scheme : Text}

theorem Web.some (web : Web scheme) : scheme ≠ [] := by
  intro none
  have starts := web.starts
  rw [none] at starts
  cases starts

theorem scheme_char_kept {char : Char} (plain : schemeChar char = true) :
    removed char = false ∧ char ≠ ':' := by
  have apart {other : Char} (bad : schemeChar other = false) : char ≠ other := by
    intro same
    rw [same, bad] at plain
    cases plain
  have tab : char ≠ '\t' := apart (by decide)
  have back : char ≠ '\r' := apart (by decide)
  have feed : char ≠ '\n' := apart (by decide)
  exact ⟨by simp [removed, tab, back, feed], apart (by decide)⟩

theorem letter_solid {char : Char} (starts : letter char = true) : controlOrSpace char = false := by
  simp only [letter, Bool.or_eq_true, Bool.and_eq_true, decide_eq_true_eq, Char.le_def,
    UInt32.le_iff_toNat_le] at starts
  have low : 65 ≤ char.toNat := by
    rcases starts with lower | upper
    · have bound : 97 ≤ char.toNat := lower.1
      omega
    · exact upper.1
  simp only [controlOrSpace, decide_eq_false_iff_not]
  omega

theorem web_cleaned (web : Web scheme) (rest : Text) :
    ∃ kept, cleaned (scheme ++ ':' :: rest) = scheme ++ ':' :: kept := by
  refine ⟨rest.filter fun char => !removed char, ?_⟩
  have whole : scheme.filter (fun char => !removed char) = scheme := by
    rw [List.filter_eq_self]
    intro char member
    rw [(scheme_char_kept (List.all_eq_true.mp web.plain char member)).1]
    rfl
  have front : (scheme ++ ':' :: rest).dropWhile controlOrSpace = scheme ++ ':' :: rest := by
    cases shape : scheme with
    | nil => exact absurd shape web.some
    | cons char more =>
        have starts := web.starts
        rw [shape] at starts
        exact List.dropWhile_cons_of_neg (by simp [letter_solid starts])
  rw [cleaned, front, List.filter_append, whole, List.filter_cons_of_pos (by decide)]

theorem web_cut (web : Web scheme) (given rest : Text) :
    cutScheme given (scheme ++ ':' :: rest) = (scheme, rest) := by
  have bare : ':' ∉ scheme := fun member =>
    (scheme_char_kept (List.all_eq_true.mp web.plain ':' member)).2 rfl
  rw [cutScheme, Text.partition_append bare, Text.partition_self]
  simp [web.starts, web.plain, web.lower]

theorem urlparse_scheme {url given : Text} {parts : Parts}
    (read : urlparse netlocs url given = .ok parts) :
    parts.scheme = (cutScheme given (cleaned url)).1 := by
  unfold urlparse at read
  dsimp only at read
  split at read
  · cases read
  · cases read
    rfl

theorem web_urlunparse (web : Web scheme) {parts : Parts} (same : parts.scheme = scheme) :
    ∃ rest, urlunparse parts = scheme ++ ':' :: '/' :: '/' :: rest := by
  have named : parts.scheme ≠ [] ∧ parts.scheme ∈ usesNetloc := by
    rw [same]
    exact ⟨web.some, web.netloc⟩
  unfold urlunparse
  dsimp only
  rw [if_neg named.1, if_pos (.inr (.inl named)), same]
  simp only [List.append_assoc, List.cons_append]
  exact ⟨_, rfl⟩

/-- What is joined to a base is the reference itself, if it names another scheme, and
begins like the base if it does not. -/
theorem web_urljoin (web : Web scheme) {rest url text : Text} (some : url ≠ [])
    (joined : urljoin netlocs (scheme ++ ':' :: '/' :: '/' :: rest) url = .ok text) :
    ((cutScheme scheme (cleaned url)).1 ≠ scheme ∧ text = url) ∨
      (cutScheme scheme (cleaned url)).1 = scheme ∧
        ∃ rest, text = scheme ++ ':' :: '/' :: '/' :: rest := by
  rw [urljoin, if_neg (by simp), if_neg some] at joined
  obtain ⟨base, readBase, joined⟩ := Stateful.except_returns joined
  obtain ⟨onto, read, joined⟩ := Stateful.except_returns joined
  have own : base.scheme = scheme := by
    obtain ⟨kept, clean⟩ := web_cleaned web ('/' :: '/' :: rest)
    rw [urlparse_scheme readBase, clean, web_cut web]
  have named : onto.scheme = (cutScheme scheme (cleaned url)).1 := by
    rw [urlparse_scheme read, own]
  rw [← named]
  by_cases same : onto.scheme = scheme
  · right
    refine ⟨same, ?_⟩
    rw [if_neg (by simp [own, same, web.relative])] at joined
    split_ifs at joined
    all_goals
      cases joined
      exact web_urlunparse web same
  · left
    rw [if_pos (.inl (own ▸ same))] at joined
    cases joined
    exact ⟨same, rfl⟩

end Web

end XRootDClient.Lib.Reference

import Mathlib.Data.List.Infix
import Mathlib.Data.List.TakeWhile
import XRootDClient.Errors
import XRootDClient.Lib.Posix
import XRootDClient.Lib.Stateful
import XRootDClient.Proto.Responses

/-!
# Directory listings

What a root server, a WebDAV server and an object store may answer to a listing, and
the entries that are made of it. Python's `int`, `repr` and `lower`, the XML parser,
percent-decoding and the dates are given functions.
-/

set_option autoImplicit false

namespace XRootDClient.Client

open Lib Lib.BigEndian Lib.Posix Lib.Stateful

structure Builtins where
  int : Text → Option Int
  repr : Text → Text
  lower : Text → Text

structure ChecksumInfo where
  algorithm : Text
  value : Text
  deriving DecidableEq

structure StatInfo where
  id : Text := []
  size : Int := 0
  flags : Int := 0
  mtime : Int := 0
  path : Text := []
  deriving DecidableEq

structure DirEntry where
  name : Text
  parent : Text := []
  stat : Option StatInfo := none
  checksum : Option ChecksumInfo := none
  deriving DecidableEq

abbrev Raises := Except Exception

variable (python : Builtins)

/-- `int(text)`. -/
def number (text : Text) : Raises Int :=
  match python.int text with
  | some value => .ok value
  | none => .error (.foreign (str "ValueError")
      (str "invalid literal for int() with base 10: " ++ python.repr text))

def statFields (text path : Text) : Raises StatInfo :=
  match (text.splitOnP Text.isSpace).filter (· ≠ []) with
  | id :: size :: flags :: mtime :: _ => do
      let mtime ← number python mtime
      let size ← number python size
      let flags ← number python flags
      return { id := id, size := size, flags := flags, mtime := mtime, path := path }
  | fields => .error (.protocolError (str "kXR_stat returned " ++ Text.ofNat fields.length ++
      str " fields, expected >= 4: " ++ python.repr text))

/-- `_checked`: refuses an entry that is not a single path component. -/
def checked (name path : Text) : Raises Text :=
  if slash ∈ name ∨ name = dots then
    .error (.protocolError (str "kXR_dirlist entry " ++ python.repr name ++ str " in " ++
      python.repr path ++ str " is not a name"))
  else .ok name

/-- `text.rstrip()`. -/
def rstripSpace (text : Text) : Text := (text.reverse.dropWhile Text.isSpace).reverse

/-- `_cksum_token`: the stat and the digest of a line. -/
def cksumToken (line : Text) : Text × Option ChecksumInfo :=
  let behind := (line.reverse.takeWhile (· ≠ '[')).reverse
  let rest := rstripSpace behind
  if '[' ∉ line ∨ rest.getLast? ≠ some ']' then (line, none)
  else
    let inner := Text.strip (rest.reverse.dropWhile (· = ']')).reverse
    let (algorithm, colon, value) := Text.partition ':' inner
    if !colon || algorithm.isEmpty then (line, none)
    else (line.take (line.length - behind.length - 1),
      if value = [] ∨ value = str "none" then none else some ⟨python.lower algorithm, value⟩)

def listed (data : Bytes) : List Text :=
  ((Proto.headText data).splitOn '\n').filter (· ≠ [])

def plain (lines : List Text) (withStat : Bool) : Bool := !withStat || lines.head? ≠ some dot

def named (path : Text) : List Text → Raises (List DirEntry)
  | [] => .ok []
  | name :: rest => do
      let name ← checked python name path
      let others ← named path rest
      return { name := name, parent := path } :: others

def pairs : List Text → List (Text × Text)
  | name :: statline :: rest => (name, statline) :: pairs rest
  | _ => []

def described (path : Text) : List (Text × Text) → Raises (List DirEntry)
  | [] => .ok []
  | (name, statline) :: rest =>
      if name = dot then described path rest
      else do
        let name ← checked python name path
        let (statline, checksum) := cksumToken python statline
        let stat ← statFields python statline
          (if path = [] then name else rstrip path ++ slash :: name)
        let others ← described path rest
        return { name := name, parent := path, stat := some stat, checksum := checksum } :: others

/-- `parse_dirlist`. The dot entry at the front is how a server says that what follows
are pairs of a name and a stat line. -/
def parseDirlist (data : Bytes) (path : Text) (withStat : Bool) : Raises (List DirEntry) :=
  let lines := listed data
  if plain lines withStat then named python path lines else described python path (pairs lines)

/-- Where a parsed multistatus body speaks of a resource, and what of it. -/
structure DavResponse where
  href : Text
  info : StatInfo

structure UrlFunctions where
  urlsplitPath : Text → Text
  unquote : Text → Text

variable (url : UrlFunctions)

def hrefPath (href : Text) : Text :=
  let raw := if str "://" <:+: href then url.urlsplitPath href else href
  if url.unquote raw = [] then [slash] else url.unquote raw

def propfind (host : Text) : List DavResponse → Raises (List (Text × StatInfo))
  | [] => .ok []
  | response :: rest => do
      if response.href.isEmpty then
        throw (.protocolError (host ++ str " sent a WebDAV response with no href"))
      let path := hrefPath url response.href
      let others ← propfind host rest
      return (path, { response.info with path := path }) :: others

/-- `path.rstrip("/") or "/"`. -/
def trimmed (path : Text) : Text := if rstrip path = [] then [slash] else rstrip path

def collected (here : Text) : List (Text × StatInfo) → Raises (List DirEntry)
  | [] => .ok []
  | (child, info) :: rest =>
      if trimmed child = here then collected here rest
      else if dirname (trimmed child) ≠ here then
        .error (.protocolError (str "PROPFIND on " ++ here ++ str " listed " ++ trimmed child ++
          str ", which is not in it"))
      else do
        let others ← collected here rest
        return { name := basename (trimmed child), parent := here, stat := some info } :: others

def davScandir (host target : Text) (responses : List DavResponse) : Raises (List DirEntry) := do
  collected (trimmed target) (← propfind url host responses)

structure S3Content where
  key : Text
  etag : Text
  size : Text
  lastModified : Text

structure S3Page where
  prefixes : List Text
  contents : List S3Content
  isTruncated : Text

variable (iso8601 : Text → Int)

def etag (value : Text) : Text :=
  (((Text.strip value).dropWhile (· = '"')).reverse.dropWhile (· = '"')).reverse

def isMd5 (value : Text) : Bool :=
  value.length = 32 && (python.lower value).all (· ∈ "0123456789abcdef".toList)

def readable : Int := 16

def writable : Int := 32

def isDir : Int := 2

/-- The name of a directory, behind what is asked for and without its slash. -/
def prefixName (skip text : Text) : Text := rstrip ((Text.strip text).drop skip.length)

def keyName (skip : Text) (content : S3Content) : Text := (Text.strip content.key).drop skip.length

/-- `int(... or 0)`. -/
def contentSize (content : S3Content) : Raises Int :=
  if Text.strip content.size = [] then .ok 0 else number python (Text.strip content.size)

def commonPrefixes (skip here : Text) (prefixes : List Text) : List DirEntry :=
  (prefixes.map (prefixName skip)).filterMap fun name =>
    if name = [] then none
    else some {
      name := name
      parent := here
      stat := some { flags := isDir + readable, path := rstrip here ++ slash :: name } }

def contents (skip here : Text) (md5 : Bool) : List S3Content → Raises (List DirEntry)
  | [] => .ok []
  | content :: rest =>
      if keyName skip content = [] ∨ slash ∈ keyName skip content then contents skip here md5 rest
      else do
        let tag := etag (Text.strip content.etag)
        let size ← contentSize python content
        let others ← contents skip here md5 rest
        return {
          name := keyName skip content
          parent := here
          stat := some {
            id := tag
            size := size
            flags := readable + writable
            mtime := iso8601 (Text.strip content.lastModified)
            path := slash :: Text.strip content.key }
          checksum := if md5 && isMd5 python tag then some ⟨str "md5", tag⟩ else none } :: others

/-- The pages of `S3FileSystem.scandir`, in the order they are answered; the request for
one that is not fails. -/
def s3Pages (skip here : Text) (md5 : Bool) : List S3Page → Raises (List DirEntry)
  | [] => .error (.connectionError [])
  | page :: rest => do
      let dirs := commonPrefixes skip here page.prefixes
      let files ← contents python iso8601 skip here md5 page.contents
      if Text.strip page.isTruncated ≠ str "true" then return dirs ++ files
      else
        let others ← s3Pages skip here md5 rest
        return dirs ++ files ++ others

/-- `S3FileSystem.scandir`. -/
def s3Scandir (key : Text) (md5 : Bool) (pages : List S3Page) : Raises (List DirEntry) :=
  let skip := if key = [] then [] else key ++ [slash]
  s3Pages python iso8601 skip (slash :: rstrip skip) md5 pages

def AllProper (entries : List DirEntry) : Prop := ∀ entry ∈ entries, Proper entry.name

section Names

variable {python} {url} {iso8601} {entries : List DirEntry} {path : Text}

theorem checked_returns {name out : Text} (returned : checked python name path = .ok out) :
    out = name ∧ slash ∉ name ∧ name ≠ dots := by
  unfold checked at returned
  split_ifs at returned with refused
  cases returned
  rw [not_or] at refused
  exact ⟨rfl, refused.1, refused.2⟩

theorem named_returns {lines : List Text} (returned : named python path lines = .ok entries) :
    entries.map DirEntry.name = lines ∧ ∀ line ∈ lines, slash ∉ line ∧ line ≠ dots := by
  induction lines generalizing entries with
  | nil =>
      cases returned
      exact ⟨rfl, fun line member => absurd member List.not_mem_nil⟩
  | cons line rest induction =>
      rw [named] at returned
      obtain ⟨name, check, returned⟩ := except_returns returned
      obtain ⟨others, later, returned⟩ := except_returns returned
      cases returned
      obtain ⟨rfl, single, notDots⟩ := checked_returns check
      obtain ⟨names, proper⟩ := induction later
      refine ⟨by rw [List.map_cons, names], fun other member => ?_⟩
      rcases List.mem_cons.mp member with rfl | early
      · exact ⟨single, notDots⟩
      · exact proper other early

theorem described_proper {lines : List (Text × Text)}
    (returned : described python path lines = .ok entries) (some : ∀ line ∈ lines, line.1 ≠ []) :
    AllProper entries := by
  induction lines generalizing entries with
  | nil =>
      cases returned
      exact fun entry member => absurd member List.not_mem_nil
  | cons line rest induction =>
      obtain ⟨name, statline⟩ := line
      have later : ∀ line ∈ rest, line.1 ≠ [] := fun line member =>
        some line (List.mem_cons_of_mem _ member)
      rw [described] at returned
      by_cases self : name = dot
      · rw [if_pos self] at returned
        exact induction returned later
      rw [if_neg self] at returned
      obtain ⟨out, check, returned⟩ := except_returns returned
      obtain ⟨stat, -, returned⟩ := except_returns returned
      obtain ⟨others, rest_, returned⟩ := except_returns returned
      cases returned
      obtain ⟨rfl, single, notDots⟩ := checked_returns check
      intro entry member
      rcases List.mem_cons.mp member with rfl | early
      · exact ⟨some _ List.mem_cons_self, single, self, notDots⟩
      · exact induction rest_ later entry early

theorem mem_pairs {lines : List Text} : ∀ pair ∈ pairs lines, pair.1 ∈ lines := by
  fun_induction pairs lines with
  | case1 name statline rest induction =>
      intro pair member
      rcases List.mem_cons.mp member with rfl | later
      · exact List.mem_cons_self
      · exact List.mem_cons_of_mem _ (List.mem_cons_of_mem _ (induction pair later))
  | case2 => simp

/-- A reply of a root server names only components where it is not read as plain names
or has no line that is a dot. -/
theorem dirlist_proper_iff {data : Bytes} {withStat : Bool}
    (returned : parseDirlist python data path withStat = .ok entries) :
    AllProper entries ↔ (plain (listed data) withStat = true → dot ∉ listed data) := by
  have some : ∀ line ∈ listed data, line ≠ [] := by
    intro line member
    simpa using (List.mem_filter.mp member).2
  unfold parseDirlist at returned
  dsimp only at returned
  split_ifs at returned with reads
  · obtain ⟨names, good⟩ := named_returns returned
    constructor
    · intro proper _ self
      rw [← names] at self
      obtain ⟨entry, member, same⟩ := List.mem_map.mp self
      exact (proper entry member).notDot same
    · intro clean entry member
      have listing : entry.name ∈ listed data := names ▸ List.mem_map_of_mem member
      obtain ⟨single, notDots⟩ := good _ listing
      exact ⟨some _ listing, single, fun same => clean reads (same ▸ listing), notDots⟩
  · refine iff_of_true (described_proper returned fun line member => ?_) fun yes => absurd yes reads
    exact some line.1 (mem_pairs line member)

theorem trimmed_cases (path : Text) :
    trimmed path = [slash] ∨ ∃ rest char, trimmed path = rest ++ [char] ∧ char ≠ slash := by
  unfold trimmed rstrip
  cases left : path.reverse.dropWhile (· = slash) with
  | nil => exact .inl (if_pos rfl)
  | cons char rest =>
      refine .inr ⟨rest.reverse, char, ?_, ?_⟩
      · rw [List.reverse_cons]
        exact if_neg (by simp)
      · have head := List.head?_dropWhile_not (· = slash) path.reverse
        rw [left] at head
        simpa using head

theorem basename_single (path : Text) : slash ∉ basename path := by
  intro member
  rw [basename, List.mem_reverse] at member
  simpa using List.mem_takeWhile_imp member

theorem basename_some {path rest : Text} {char : Char} (ends : path = rest ++ [char])
    (other : char ≠ slash) : basename path ≠ [] := by
  rw [ends, basename, List.reverse_append]
  simp [other]

theorem collected_returns {here : Text} {children : List (Text × StatInfo)}
    (returned : collected here children = .ok entries) :
    (∀ child ∈ children, trimmed child.1 ≠ here → dirname (trimmed child.1) = here) ∧
    ∀ name, name ∈ entries.map DirEntry.name ↔ ∃ child ∈ children, trimmed child.1 ≠ here ∧
      basename (trimmed child.1) = name := by
  induction children generalizing entries with
  | nil =>
      cases returned
      simp
  | cons child rest induction =>
      obtain ⟨child, info⟩ := child
      rw [collected] at returned
      by_cases self : trimmed child = here
      · rw [if_pos self] at returned
        obtain ⟨inside, names⟩ := induction returned
        refine ⟨fun other member apart => ?_, fun name => ?_⟩
        · rcases List.mem_cons.mp member with rfl | later
          · exact absurd self apart
          · exact inside other later apart
        · rw [names name]
          simp [self]
      rw [if_neg self] at returned
      by_cases apart : dirname (trimmed child) ≠ here
      · rw [if_pos apart] at returned
        cases returned
      rw [if_neg apart] at returned
      obtain ⟨others, later, returned⟩ := except_returns returned
      cases returned
      obtain ⟨inside, names⟩ := induction later
      refine ⟨fun other member apart_ => ?_, fun name => ?_⟩
      · rcases List.mem_cons.mp member with rfl | later
        · exact not_not.mp apart
        · exact inside other later apart_
      · rw [List.map_cons, List.mem_cons, names name]
        simp [self, @eq_comm _ name]

theorem propfind_returns {host : Text} {responses : List DavResponse}
    {children : List (Text × StatInfo)} (returned : propfind url host responses = .ok children) :
    children.map Prod.fst = responses.map fun response => hrefPath url response.href := by
  induction responses generalizing children with
  | nil =>
      cases returned
      rfl
  | cons response rest induction =>
      rw [propfind] at returned
      by_cases empty : response.href.isEmpty = true
      · rw [if_pos empty] at returned
        cases returned
      rw [if_neg empty] at returned
      obtain ⟨others, later, returned⟩ := except_returns returned
      cases returned
      rw [List.map_cons, List.map_cons, induction later]

/-- A multistatus names only components where no resource in the collection is named by
a dot or by two. -/
theorem dav_proper_iff {host target : Text} {responses : List DavResponse}
    (returned : davScandir url host target responses = .ok entries) :
    AllProper entries ↔ ∀ response ∈ responses,
      trimmed (hrefPath url response.href) ≠ trimmed target →
      basename (trimmed (hrefPath url response.href)) ≠ dot ∧
        basename (trimmed (hrefPath url response.href)) ≠ dots := by
  obtain ⟨children, found, returned⟩ := except_returns returned
  obtain ⟨inside, names⟩ := collected_returns returned
  have paths : ∀ path, (∃ child ∈ children, child.1 = path) ↔
      ∃ response ∈ responses, hrefPath url response.href = path := by
    intro path
    have same := propfind_returns found
    rw [← List.mem_map (f := Prod.fst), same, List.mem_map]
  constructor
  · intro proper response member apart
    obtain ⟨child, listed_, same⟩ := (paths _).mpr ⟨response, member, rfl⟩
    rw [← same] at apart ⊢
    obtain ⟨entry, found_, named_⟩ := List.mem_map.mp ((names _).mpr ⟨child, listed_, apart, rfl⟩)
    rw [← named_]
    exact ⟨(proper entry found_).notDot, (proper entry found_).notDots⟩
  · intro clean entry member
    obtain ⟨child, listed_, apart, same⟩ := (names _).mp (List.mem_map_of_mem member)
    obtain ⟨response, there, path⟩ := (paths child.1).mp ⟨child, listed_, rfl⟩
    have known := clean response there (path ▸ apart)
    rw [path, same] at known
    refine ⟨?_, same ▸ basename_single _, known.1, known.2⟩
    rcases trimmed_cases child.1 with root | ⟨rest, char, ends, other⟩
    · -- the root has itself for its directory
      have top := inside child listed_ apart
      rw [root] at top apart
      exact absurd top apart
    · exact same ▸ basename_some ends other

def asked : List S3Page → List S3Page
  | [] => []
  | page :: rest => if Text.strip page.isTruncated ≠ str "true" then [page] else page :: asked rest

/-- A page whose directories are named by components and whose keys by no dots. -/
structure CleanPage (skip : Text) (page : S3Page) : Prop where
  prefixes : ∀ text ∈ page.prefixes, prefixName skip text ≠ [] → Proper (prefixName skip text)
  keys : ∀ content ∈ page.contents, keyName skip content ≠ dot ∧ keyName skip content ≠ dots

theorem all_proper_append (first second : List DirEntry) :
    AllProper (first ++ second) ↔ AllProper first ∧ AllProper second := by
  simp only [AllProper, List.mem_append, or_imp, forall_and]

theorem common_prefixes_proper_iff (skip here : Text) (prefixes : List Text) :
    AllProper (commonPrefixes skip here prefixes) ↔
      ∀ text ∈ prefixes, prefixName skip text ≠ [] → Proper (prefixName skip text) := by
  constructor
  · intro proper text member some
    refine proper _ (List.mem_filterMap.mpr ⟨_, List.mem_map_of_mem member, if_neg some⟩)
  · intro clean entry member
    obtain ⟨name, named_, made⟩ := List.mem_filterMap.mp member
    obtain ⟨text, listed_, rfl⟩ := List.mem_map.mp named_
    split_ifs at made with none
    cases made
    exact clean text listed_ none

theorem contents_proper_iff {skip here : Text} {md5 : Bool} {keys : List S3Content}
    (returned : contents python iso8601 skip here md5 keys = .ok entries) :
    AllProper entries ↔ ∀ content ∈ keys, keyName skip content ≠ dot ∧ keyName skip content ≠ dots := by
  induction keys generalizing entries with
  | nil =>
      cases returned
      simp [AllProper]
  | cons content rest induction =>
      rw [contents] at returned
      by_cases skipped : keyName skip content = [] ∨ slash ∈ keyName skip content
      · rw [if_pos skipped] at returned
        have harmless : keyName skip content ≠ dot ∧ keyName skip content ≠ dots := by
          rcases skipped with none | several
          · rw [none]
            decide
          · constructor
            · intro same
              rw [same] at several
              revert several
              decide
            · intro same
              rw [same] at several
              revert several
              decide
        rw [induction returned]
        simp [harmless]
      · rw [if_neg skipped] at returned
        rw [not_or] at skipped
        obtain ⟨size, -, returned⟩ := except_returns returned
        obtain ⟨others, later, returned⟩ := except_returns returned
        cases returned
        rw [List.forall_mem_cons, ← induction later, AllProper, List.forall_mem_cons]
        refine and_congr_left fun _ => ?_
        exact ⟨fun proper => ⟨proper.notDot, proper.notDots⟩,
          fun clean => ⟨skipped.1, skipped.2, clean.1, clean.2⟩⟩

theorem s3_pages_proper_iff {skip here : Text} {md5 : Bool} {pages : List S3Page}
    (returned : s3Pages python iso8601 skip here md5 pages = .ok entries) :
    AllProper entries ↔ ∀ page ∈ asked pages, CleanPage skip page := by
  induction pages generalizing entries with
  | nil => cases returned
  | cons page rest induction =>
      rw [s3Pages] at returned
      obtain ⟨files, found, returned⟩ := except_returns returned
      have clean : AllProper (commonPrefixes skip here page.prefixes ++ files) ↔
          CleanPage skip page := by
        rw [all_proper_append, common_prefixes_proper_iff, contents_proper_iff found]
        exact ⟨fun both => ⟨both.1, both.2⟩, fun clean => ⟨clean.prefixes, clean.keys⟩⟩
      rw [asked]
      split_ifs at returned ⊢
      · cases returned
        rw [clean]
        simp
      · obtain ⟨others, later, returned⟩ := except_returns returned
        cases returned
        rw [all_proper_append, clean, induction later, List.forall_mem_cons]

end Names

end XRootDClient.Client

import XRootDClient.Client.Dirlist
import XRootDClient.Http.Client
import XRootDClient.Lib.Collation
import XRootDClient.Lib.Sha256

/-!
# Signature Version 4

`sign` with the canonical request it hashes: the path decoded and encoded again, the query
sorted and encoded again, and a line for each header that is signed. `str.lower` and
`str.upper` are given functions, and the time is given as it is written.

What S3 defines sorts the query by its encoded names, and the signed headers are a list
in which every name stands once. The code sorts before it encodes, and keeps two headers
whose names differ in case alone.
-/

set_option autoImplicit false

namespace XRootDClient.S3.Sigv4

open Lib Lib.BigEndian Lib.Percent Lib.Collation Http Url

structure Credentials where
  accessKey : Text
  secretKey : Text
  sessionToken : Text := []

def algorithm : Text := str "AWS4-HMAC-SHA256"

def hexdigest (digest : Bytes) : Text := digest.flatMap fun byte => Text.ofHex 2 byte.toNat

def canonicalUri (path : Text) : Text :=
  quoteSafe ['/'] (unquote (if path = [] then ['/'] else path))

def canonicalQuery (query : Text) : Text :=
  Text.join ['&'] ((sorted (parseQsl query)).map fun pair => quote pair.1 ++ '=' :: quote pair.2)

structure Canonical where
  method : Text
  uri : Text
  query : Text
  headers : Text
  signed : Text
  payload : Text

def Canonical.text (request : Canonical) : Text :=
  Text.join ['\n'] [request.method, request.uri, request.query, request.headers, request.signed,
    request.payload]

section Model

variable (lower upper : Text → Text)

def isSigned (name : Text) : Bool :=
  let lowered := lower name
  lowered = str "host" || (str "x-amz-").isPrefixOf lowered

def given (headers : Headers) : Headers where
  entries := headers.entries.filter fun entry => isSigned lower entry.1
  unique := headers.unique.sublist (List.filter_sublist.map _)

def signedHeaders (host stamp payloadHash token : Text) (headers : Headers) : Headers :=
  let signed := (given lower headers).set (str "host") host
  let signed := signed.set (str "x-amz-date") stamp
  let signed := signed.set (str "x-amz-content-sha256") payloadHash
  if token = [] then signed else signed.set (str "x-amz-security-token") token

def lowered (signed : Headers) : List (Text × Text) :=
  sorted (signed.entries.map fun entry =>
    (lower entry.1, Text.join [' '] (Client.words entry.2)))

def line (header : Text × Text) : Text := header.1 ++ ':' :: header.2 ++ ['\n']

def canonical (method target payloadHash : Text) (signed : Headers) : Canonical where
  method := upper method
  uri := canonicalUri (Text.partition '?' target).1
  query := canonicalQuery (Text.partition '?' target).2.2
  headers := (lowered lower signed).flatMap line
  signed := Text.join [';'] ((lowered lower signed).map Prod.fst)
  payload := payloadHash

def signingKey (secret date region service : Text) : Bytes :=
  [date, region, service, str "aws4_request"].foldl
    (fun key step => Sha256.hmac key step.encodeUtf8) (str "AWS4" ++ secret).encodeUtf8

def scope (region service stamp : Text) : Text :=
  stamp.take 8 ++ '/' :: region ++ '/' :: service ++ str "/aws4_request"

def toSign (region service stamp : Text) (request : Canonical) : Text :=
  Text.join ['\n'] [algorithm, stamp, scope region service stamp,
    hexdigest (Sha256.sha256 request.text.encodeUtf8)]

def sign (method target host : Text) (headers : Headers) (payloadHash : Text)
    (credentials : Credentials) (region service stamp : Text) : Headers :=
  let signed := signedHeaders lower host stamp payloadHash credentials.sessionToken headers
  let request := canonical lower upper method target payloadHash signed
  let signature := hexdigest (Sha256.hmac
    (signingKey credentials.secretKey (stamp.take 8) region service)
    (toSign region service stamp request).encodeUtf8)
  signed.set (str "Authorization") (algorithm ++ str " Credential=" ++ credentials.accessKey ++
    '/' :: scope region service stamp ++ str ", SignedHeaders=" ++ request.signed ++
    str ", Signature=" ++ signature)

end Model

def onWire (url : XRootDURL) : List (Text × Text) :=
  parseQsl (Text.partition '?' (requestTarget url)).2.2

/-- The encoded pairs, sorted by their encoded names and then by their encoded values. -/
def definedQuery (pairs : List (Text × Text)) : Text :=
  Text.join ['&'] ((sorted (pairs.map quoted)).map fun pair => pair.1 ++ '=' :: pair.2)

/-- A line of the canonical headers that is the one of a name. -/
def LineOf (name line : Text) : Prop := ∃ value, line = name ++ ':' :: value

/-- A canonical request is the one S3 defines for a URL. -/
structure Defined (lower : Text → Text) (url : XRootDURL) (request : Canonical) : Prop where
  uri : request.uri = quoteSafe ['/'] (if url.path = [] then ['/'] else url.path)
  query : request.query = definedQuery (onWire url)
  pairs : (parseQsl request.query).Perm (onWire url)
  rising : (request.signed.splitOn ';').Pairwise (· < ·)
  lowercase : ∀ name ∈ request.signed.splitOn ';', lower name = name
  lines : List.Forall₂ LineOf (request.signed.splitOn ';') (request.headers.splitOn '\n').dropLast

theorem unescape_quote (text rest : Text) :
    unescape (quote text ++ rest) = text.encodeUtf8 ++ unescape rest := by
  unfold quote
  generalize text.encodeUtf8 = bytes
  induction bytes with
  | nil => rfl
  | cons byte bytes induction =>
      rw [List.flatMap_cons, List.append_assoc, unescape_escape, induction, List.cons_append]

theorem unquote_quote_safe {marks : Text} (plain : marks.all fun char => ascii char && char != '%')
    (text : Text) : unquote (quoteSafe marks text) = text := by
  rw [List.all_eq_true] at plain
  have low : ∀ char ∈ quoteSafe marks text, ascii char = true := by
    intro char member
    obtain ⟨source, -, inside⟩ := List.mem_flatMap.mp member
    split_ifs at inside with kept
    · rw [List.mem_singleton.mp inside]
      have both := plain source kept
      rw [Bool.and_eq_true] at both
      exact both.1
    · exact safe_ascii (quote_safe _ char inside)
  have bytes : unescape (quoteSafe marks text) = text.encodeUtf8 := by
    unfold quoteSafe Text.encodeUtf8
    clear low
    induction text with
    | nil => rfl
    | cons char rest induction =>
        rw [List.flatMap_cons, List.flatMap_cons]
        split_ifs with kept
        · have both := plain char kept
          rw [Bool.and_eq_true, bne_iff_ne] at both
          rw [List.singleton_append, unescape_plain both.2, encode_ascii both.1, induction]
          rfl
        · rw [unescape_quote, induction, Text.encodeUtf8, List.flatMap_singleton]
  rw [unquote_ascii low, bytes, Text.decode_encode]

theorem quote_safe_bare {marks : Text} {mark : Char} (other : mark ∉ marks)
    (escaped : safe mark = false) (text : Text) : mark ∉ quoteSafe marks text := by
  intro member
  obtain ⟨source, -, inside⟩ := List.mem_flatMap.mp member
  split_ifs at inside with kept
  · rw [List.mem_singleton] at inside
    exact other (inside ▸ kept)
  · rw [quote_safe _ mark inside] at escaped
    cases escaped

def carried (url : XRootDURL) : List (Text × Text) :=
  url.query.entries.filter fun entry => entry.1 ∉ [authz, str "access_token"]

def fields (pairs : List (Text × Text)) : Text :=
  Text.join ['&'] (pairs.map fun pair => quote pair.1 ++ '=' :: quote pair.2)

def targetMarks : Text := str "/:@!$&'()*+,;=~"

theorem target_parts (url : XRootDURL) :
    (Text.partition '?' (requestTarget url)).1 =
        quoteSafe targetMarks (if url.path = [] then ['/'] else url.path) ∧
      (Text.partition '?' (requestTarget url)).2.2 = fields (carried url) := by
  have bare := @quote_safe_bare targetMarks '?' (by decide) (by decide)
    (if url.path = [] then ['/'] else url.path)
  have shape : requestTarget url = quoteSafe targetMarks (if url.path = [] then ['/'] else url.path) ++
      if carried url = [] then [] else '?' :: fields (carried url) := rfl
  rw [shape]
  generalize (if url.path = [] then ['/'] else url.path) = path at bare
  split_ifs with empty
  · rw [List.append_nil, partition_bare bare, empty]
    exact ⟨rfl, rfl⟩
  · rw [Text.partition_append bare, Text.partition_self, List.append_nil]
    exact ⟨rfl, rfl⟩

theorem canonical_uri_target (url : XRootDURL) :
    canonicalUri (Text.partition '?' (requestTarget url)).1 =
      quoteSafe ['/'] (if url.path = [] then ['/'] else url.path) := by
  rw [(target_parts url).1]
  have some : quoteSafe targetMarks (if url.path = [] then ['/'] else url.path) ≠ [] := by
    intro nothing
    have back := @unquote_quote_safe targetMarks (by decide)
      (if url.path = [] then ['/'] else url.path)
    rw [nothing] at back
    split_ifs at back with empty
    · cases back
    · exact empty back.symm
  rw [canonicalUri, if_neg some, unquote_quote_safe (by decide)]

theorem unquote_plus_quote (text : Text) : unquotePlus (quote text) = text := by
  have kept : ∀ char ∈ quote text, (if char = '+' then ' ' else char) = id char := by
    intro char member
    apply if_neg
    rintro rfl
    exact absurd (quote_safe text '+' member) (by decide)
  rw [unquotePlus, List.map_congr_left kept, List.map_id, unquote_quote]

theorem pair_field (entry : Text × Text) :
    pair (quote entry.1 ++ '=' :: quote entry.2) = some entry := by
  have bare : '=' ∉ quote entry.1 := fun member => (quote_plain entry.1 '=' member).2.2.2 rfl
  rw [pair, if_neg (by simp), nameOf, Text.partition_append bare, Text.partition_self,
    List.append_nil, unquote_plus_quote, unquote_plus_quote]

theorem parse_fields (pairs : List (Text × Text)) : parseQsl (fields pairs) = pairs := by
  by_cases none : pairs = []
  · rw [none]
    rfl
  · have plain (text : Text) : '&' ∉ quote text := fun member => (quote_plain text '&' member).2.2.1 rfl
    have split : (fields pairs).splitOn '&' =
        pairs.map fun pair => quote pair.1 ++ '=' :: quote pair.2 := by
      rw [fields, join_intercalate]
      apply List.splitOn_intercalate
      · intro field member
        obtain ⟨entry, -, rfl⟩ := List.mem_map.mp member
        simp [plain]
      · simpa using none
    rw [parseQsl, split, List.filterMap_map]
    exact (congrArg (List.filterMap · pairs) (funext pair_field)).trans List.filterMap_some

theorem on_wire (url : XRootDURL) : onWire url = carried url := by
  rw [onWire, (target_parts url).2, parse_fields]

theorem canonical_query_fields (pairs : List (Text × Text)) :
    canonicalQuery (fields pairs) = fields (sorted pairs) := by
  rw [canonicalQuery, parse_fields]
  rfl

theorem defined_query_fields (pairs : List (Text × Text)) :
    ∃ listed : List (Text × Text), listed.map quoted = sorted (pairs.map quoted) ∧
      definedQuery pairs = fields listed := by
  let unquoted (pair : Text × Text) : Text × Text := (unquote pair.1, unquote pair.2)
  have each : ∀ pair ∈ sorted (pairs.map quoted), quoted (unquoted pair) = id pair := by
    intro pair member
    obtain ⟨source, -, rfl⟩ := List.mem_map.mp ((sorted_perm _).mem_iff.mp member)
    simp only [unquoted, quoted, unquote_quote, id]
  have back : ((sorted (pairs.map quoted)).map unquoted).map quoted = sorted (pairs.map quoted) := by
    rw [List.map_map]
    exact (List.map_congr_left each).trans (List.map_id _)
  refine ⟨(sorted (pairs.map quoted)).map unquoted, back, ?_⟩
  unfold definedQuery
  nth_rewrite 1 [← back]
  rw [List.map_map]
  rfl

theorem carried_once (url : XRootDURL) : ((carried url).map Prod.fst).Nodup :=
  url.query.unique.sublist (List.filter_sublist.map _)

theorem query_defined_iff (url : XRootDURL) :
    canonicalQuery (fields (carried url)) = definedQuery (carried url) ↔
      ∀ left ∈ carried url, ∀ right ∈ carried url, turned left.1 right.1 = false := by
  rw [← quoted_sorted_iff (carried_once url), canonical_query_fields]
  obtain ⟨listed, written, shape⟩ := defined_query_fields (carried url)
  rw [shape, ← written]
  constructor
  · intro same
    have read := congrArg parseQsl same
    rw [parse_fields, parse_fields] at read
    rw [read]
  · intro same
    rw [List.map_injective_iff.mpr quoted_injective same]

section Headers

variable (lower : Text → Text)

def added (token : Text) : List Text :=
  [str "host", str "x-amz-date", str "x-amz-content-sha256"] ++
    if token = [] then [] else [str "x-amz-security-token"]

/-- The names that are signed: those of the headers, and the ones that are added. -/
def signedNames (token : Text) (headers : Headers) : List Text :=
  headers.keys.filter (isSigned lower) ++ added token

theorem mem_signed_keys (host stamp payloadHash token : Text) (headers : Headers) (name : Text) :
    name ∈ (signedHeaders lower host stamp payloadHash token headers).keys ↔
      name ∈ signedNames lower token headers := by
  have inside : name ∈ (given lower headers).keys ↔ name ∈ headers.keys.filter (isSigned lower) := by
    simp [Dict.keys, given]
  rw [signedNames, added, List.mem_append, ← inside]
  unfold signedHeaders
  dsimp only
  split_ifs
  · simp only [Dict.mem_keys_set, List.append_nil, List.mem_cons, List.not_mem_nil, or_false]
    generalize (name = str "host") = host, (name = str "x-amz-date") = date,
      (name = str "x-amz-content-sha256") = hash
    tauto
  · simp only [Dict.mem_keys_set, List.mem_append, List.mem_cons, List.not_mem_nil, or_false]
    generalize (name = str "host") = host, (name = str "x-amz-date") = date,
      (name = str "x-amz-content-sha256") = hash, (name = str "x-amz-security-token") = token
    tauto

theorem mem_lowered_names (signed : Headers) (name : Text) :
    name ∈ (lowered lower signed).map Prod.fst ↔ ∃ key ∈ signed.keys, lower key = name := by
  rw [lowered, (names_perm _).mem_iff]
  simp [Dict.keys]

theorem lowered_rise_iff (signed : Headers) :
    ((lowered lower signed).map Prod.fst).Pairwise (· < ·) ↔
      ∀ left ∈ signed.keys, ∀ right ∈ signed.keys, lower left = lower right → left = right := by
  have names : (signed.entries.map fun entry =>
      (lower entry.1, Text.join [' '] (Client.words entry.2))).map Prod.fst =
        signed.keys.map lower := by
    simp [Dict.keys]
  rw [lowered, names_rise_iff, names, List.nodup_map_iff_inj_on signed.keys_nodup]

theorem mem_join {separator : Text} {items : List Text} {char : Char}
    (member : char ∈ Text.join separator items) (other : char ∉ separator) :
    ∃ item ∈ items, char ∈ item := by
  fun_induction Text.join separator items with
  | case1 => cases member
  | case2 only => exact ⟨only, by simp, member⟩
  | case3 first rest more induction =>
      rw [List.mem_append, List.mem_append] at member
      rcases member with (inside | wrong) | later
      · exact ⟨first, by simp, inside⟩
      · exact absurd wrong other
      · obtain ⟨item, among, inside⟩ := induction later
        exact ⟨item, List.mem_cons_of_mem _ among, inside⟩

theorem split_bare {cuts : Char → Bool} {text word : Text} (member : word ∈ text.splitOnP cuts) :
    ∀ char ∈ word, cuts char = false := by
  induction text generalizing word with
  | nil =>
      rw [List.splitOnP_nil, List.mem_singleton] at member
      simp [member]
  | cons first rest induction =>
      obtain ⟨head, tail, shape⟩ := List.exists_cons_of_ne_nil (List.splitOnP_ne_nil cuts rest)
      rw [shape] at induction
      rw [List.splitOnP_cons_eq_if_modifyHead, shape] at member
      split_ifs at member with cut
      · rcases List.mem_cons.mp member with rfl | later
        · simp
        · exact induction later
      · rcases List.mem_cons.mp member with rfl | later
        · rw [List.forall_mem_cons]
          exact ⟨by simpa using cut, induction List.mem_cons_self⟩
        · exact induction (List.mem_cons_of_mem _ later)

theorem lowered_value (signed : Headers) :
    ∀ header ∈ lowered lower signed, '\n' ∉ header.2 := by
  intro header member
  obtain ⟨entry, -, rfl⟩ := List.mem_map.mp ((sorted_perm _).mem_iff.mp member)
  intro newline
  obtain ⟨word, among, inside⟩ := mem_join newline (by decide)
  have solid : '\n' ∉ word := by
    intro held
    have split := List.mem_of_mem_filter among
    exact absurd (split_bare split '\n' held) (by decide)
  exact solid inside

end Headers

theorem split_head (mark : Char) (text : Text) :
    ∃ front rest, text.splitOn mark = front :: rest ∧ front <+: text ∧ mark ∉ front := by
  by_cases found : mark ∈ text
  · obtain ⟨front, rest, rfl, bare⟩ := List.eq_append_cons_of_mem found
    exact ⟨front, rest.splitOn mark, List.splitOn_append_cons_self_of_not_mem bare rest,
      List.prefix_append _ _, bare⟩
  · exact ⟨text, [], List.splitOn_eq_singleton found, List.prefix_rfl, found⟩

theorem line_clean {name behind piece first value : Text} {pieces : List Text}
    (cut : (name ++ behind).splitOn ';' = piece :: pieces)
    (ends : behind = [] ∨ ∃ rest, behind = ';' :: rest) (has : LineOf piece first)
    (front : first <+: name ++ ':' :: value) (bare : '\n' ∉ first) : ';' ∉ name ∧ '\n' ∉ name := by
  obtain ⟨content, rfl⟩ := has
  by_cases marked : ';' ∈ name
  · -- the name is cut in front of its mark, where the line has no colon
    obtain ⟨half, rest, rfl, before⟩ := List.eq_append_cons_of_mem marked
    rw [List.append_assoc, List.cons_append, List.splitOn_append_cons_self_of_not_mem before] at cut
    cases cut
    rw [List.append_assoc, List.prefix_append_right_inj, List.cons_append, List.cons_prefix_cons] at front
    exact absurd front.1 (by decide)
  · have whole : piece = name := by
      rcases ends with rfl | ⟨rest, rfl⟩
      · rw [List.append_nil, List.splitOn_eq_singleton marked] at cut
        cases cut
        rfl
      · rw [List.splitOn_append_cons_self_of_not_mem marked] at cut
        cases cut
        rfl
    rw [whole, List.mem_append, not_or] at bare
    exact ⟨marked, bare.1⟩

/-- A list of headers whose names each have their line. -/
def Lined (headers : List (Text × Text)) : Prop :=
  List.Forall₂ LineOf ((Text.join [';'] (headers.map Prod.fst)).splitOn ';')
    ((headers.flatMap line).splitOn '\n').dropLast

theorem lines_split {headers : List (Text × Text)} {name value : Text} (bare : '\n' ∉ name)
    (solid : '\n' ∉ value) :
    ((((name, value) :: headers).flatMap line).splitOn '\n').dropLast =
      (name ++ ':' :: value) :: ((headers.flatMap line).splitOn '\n').dropLast := by
  have free : '\n' ∉ name ++ ':' :: value := by simp [bare, solid]
  have shape : ((name, value) :: headers).flatMap line =
      (name ++ ':' :: value) ++ '\n' :: headers.flatMap line := by
    simp [line]
  rw [shape, List.splitOn_append_cons_self_of_not_mem free,
    List.dropLast_cons_of_ne_nil (List.splitOn_ne_nil _ _)]

theorem names_cons (header : Text × Text) (rest : List (Text × Text)) :
    ∃ behind, Text.join [';'] ((header :: rest).map Prod.fst) = header.1 ++ behind ∧
      (rest = [] ∧ behind = [] ∨
        rest ≠ [] ∧ behind = ';' :: Text.join [';'] (rest.map Prod.fst)) := by
  cases rest with
  | nil => exact ⟨[], by simp [Text.join], Or.inl ⟨rfl, rfl⟩⟩
  | cons next rest =>
      refine ⟨';' :: Text.join [';'] ((next :: rest).map Prod.fst), ?_, Or.inr ⟨by simp, rfl⟩⟩
      rw [List.map_cons, Text.join]
      · simp
      · simp

theorem lined_head {name value : Text} {rest : List (Text × Text)}
    (lined : Lined ((name, value) :: rest)) : ';' ∉ name ∧ '\n' ∉ name := by
  unfold Lined at lined
  obtain ⟨behind, shape, ends⟩ := names_cons (name, value) rest
  rw [shape] at lined
  obtain ⟨piece, pieces, cut, -, -⟩ := split_head ';' (name ++ behind)
  obtain ⟨first, lines, begun, front, bare⟩ :=
    split_head '\n' (((name, value) :: rest).flatMap line)
  rw [cut, begun] at lined
  cases lines with
  | nil => cases lined
  | cons second lines =>
      rw [List.dropLast_cons_cons] at lined
      cases lined with
      | cons has others =>
          have text : ((name, value) :: rest).flatMap line =
              name ++ ':' :: (value ++ '\n' :: rest.flatMap line) := by
            simp [line]
          rw [text] at front
          exact line_clean cut (ends.imp And.right fun more => ⟨_, more.2⟩) has front bare

theorem lined_cons {name value : Text} {rest : List (Text × Text)} (clean : ';' ∉ name)
    (bare : '\n' ∉ name) (solid : '\n' ∉ value) :
    Lined ((name, value) :: rest) ↔ rest = [] ∨ Lined rest := by
  unfold Lined
  obtain ⟨behind, shape, ends⟩ := names_cons (name, value) rest
  rw [shape, lines_split bare solid]
  rcases ends with ⟨rfl, rfl⟩ | ⟨more, rfl⟩
  · rw [List.append_nil, List.splitOn_eq_singleton clean]
    simp [LineOf]
  · rw [List.splitOn_append_cons_self_of_not_mem clean, List.forall₂_cons]
    simp [LineOf, more]

theorem lined_iff {headers : List (Text × Text)} (some : headers ≠ [])
    (solid : ∀ header ∈ headers, '\n' ∉ header.2) :
    Lined headers ↔ ∀ header ∈ headers, ';' ∉ header.1 ∧ '\n' ∉ header.1 := by
  induction headers with
  | nil => exact absurd rfl some
  | cons header rest induction =>
      obtain ⟨name, value⟩ := header
      rw [List.forall_mem_cons] at solid ⊢
      constructor
      · intro lined
        have clean := lined_head lined
        refine ⟨clean, ?_⟩
        rcases (lined_cons clean.1 clean.2 solid.1).mp lined with rfl | later
        · simp
        · by_cases none : rest = []
          · simp [none]
          · exact (induction none solid.2).mp later
      · rintro ⟨clean, others⟩
        rw [lined_cons clean.1 clean.2 solid.1]
        by_cases none : rest = []
        · exact Or.inl none
        · exact Or.inr ((induction none solid.2).mpr others)

theorem names_split {headers : List (Text × Text)} (some : headers ≠ [])
    (clean : ∀ header ∈ headers, ';' ∉ header.1) :
    (Text.join [';'] (headers.map Prod.fst)).splitOn ';' = headers.map Prod.fst := by
  rw [join_intercalate]
  apply List.splitOn_intercalate
  · intro name member
    obtain ⟨header, inside, rfl⟩ := List.mem_map.mp member
    exact clean header inside
  · simpa using some

/-- What a request needs: no two names of its query are turned around by quoting, no two
of its signed headers have one name in lower case, and none of these holds a mark. -/
structure Orderly (lower : Text → Text) (url : XRootDURL) (token : Text) (headers : Headers) :
    Prop where
  straight : ∀ left ∈ carried url, ∀ right ∈ carried url, turned left.1 right.1 = false
  apart : ∀ left ∈ signedNames lower token headers, ∀ right ∈ signedNames lower token headers,
    lower left = lower right → left = right
  clean : ∀ name ∈ signedNames lower token headers, ';' ∉ lower name ∧ '\n' ∉ lower name

section Settled

variable {lower upper : Text → Text} (url : XRootDURL) (method host payloadHash stamp token : Text)
  (headers : Headers)

def requested (lower upper : Text → Text) (url : XRootDURL)
    (method host payloadHash stamp token : Text) (headers : Headers) : Canonical :=
  canonical lower upper method (requestTarget url) payloadHash
    (signedHeaders lower host stamp payloadHash token headers)

theorem signed_orderly_iff (stable : ∀ text, lower (lower text) = lower text) (signed : Headers)
    (some : signed.keys ≠ []) :
    (((Text.join [';'] ((lowered lower signed).map Prod.fst)).splitOn ';').Pairwise (· < ·) ∧
        (∀ name ∈ (Text.join [';'] ((lowered lower signed).map Prod.fst)).splitOn ';',
          lower name = name) ∧ Lined (lowered lower signed)) ↔
      (∀ left ∈ signed.keys, ∀ right ∈ signed.keys, lower left = lower right → left = right) ∧
        ∀ name ∈ signed.keys, ';' ∉ lower name ∧ '\n' ∉ lower name := by
  have names := mem_lowered_names lower signed
  have full : lowered lower signed ≠ [] := by
    obtain ⟨name, member⟩ := List.exists_mem_of_ne_nil _ some
    have inside := (names (lower name)).mpr ⟨name, member, rfl⟩
    intro empty
    rw [empty] at inside
    cases inside
  have marks : (∀ header ∈ lowered lower signed, ';' ∉ header.1 ∧ '\n' ∉ header.1) ↔
      ∀ name ∈ signed.keys, ';' ∉ lower name ∧ '\n' ∉ lower name := by
    rw [← List.forall_mem_map (f := Prod.fst) (P := fun name => ';' ∉ name ∧ '\n' ∉ name)]
    constructor
    · exact fun clean name member => clean _ ((names _).mpr ⟨name, member, rfl⟩)
    · intro clean name member
      obtain ⟨key, inside, rfl⟩ := (names name).mp member
      exact clean key inside
  rw [lined_iff full (lowered_value lower signed), marks, ← lowered_rise_iff lower signed]
  constructor
  · rintro ⟨rising, -, clean⟩
    rw [names_split full fun header member => (marks.mpr clean header member).1] at rising
    exact ⟨rising, clean⟩
  · rintro ⟨rising, clean⟩
    rw [names_split full fun header member => (marks.mpr clean header member).1]
    refine ⟨rising, ?_, clean⟩
    intro name member
    obtain ⟨key, -, rfl⟩ := (names name).mp member
    exact stable key

/-- The request is the one S3 defines where the names of its query and of its headers are
in order. -/
theorem canonical_defined_iff (stable : ∀ text, lower (lower text) = lower text) :
    Defined lower url (requested lower upper url method host payloadHash stamp token headers) ↔
      Orderly lower url token headers := by
  have keys := mem_signed_keys lower host stamp payloadHash token headers
  have some : (signedHeaders lower host stamp payloadHash token headers).keys ≠ [] := by
    have inside : str "host" ∈ signedNames lower token headers := by
      simp [signedNames, added]
    exact List.ne_nil_of_mem ((keys _).mpr inside)
  have signed := signed_orderly_iff stable
    (signedHeaders lower host stamp payloadHash token headers) some
  simp only [keys] at signed
  have query : (requested lower upper url method host payloadHash stamp token headers).query =
      canonicalQuery (fields (carried url)) := by
    rw [← (target_parts url).2]
    rfl
  constructor
  · intro defined
    obtain ⟨apart, clean⟩ := signed.mp ⟨defined.rising, defined.lowercase, defined.lines⟩
    have same := defined.query
    rw [query, on_wire] at same
    exact ⟨(query_defined_iff url).mp same, apart, clean⟩
  · intro orderly
    obtain ⟨rising, lowercase, lines⟩ := signed.mpr ⟨orderly.apart, orderly.clean⟩
    refine ⟨canonical_uri_target url, ?_, ?_, rising, lowercase, lines⟩
    · rw [query, on_wire]
      exact (query_defined_iff url).mpr orderly.straight
    · rw [query, canonical_query_fields, parse_fields, on_wire]
      exact sorted_perm _

end Settled

section Covers

variable (lower upper : Text → Text) (credentials : Credentials) (region service stamp : Text)

structure Asked where
  method : Text
  target : Text
  host : Text
  headers : Headers
  payloadHash : Text

def Asked.canonical (asked : Asked) : Canonical :=
  Sigv4.canonical lower upper asked.method asked.target asked.payloadHash
    (signedHeaders lower asked.host stamp asked.payloadHash credentials.sessionToken asked.headers)

def Asked.sign (asked : Asked) : Headers :=
  Sigv4.sign lower upper asked.method asked.target asked.host asked.headers asked.payloadHash
    credentials region service stamp

def Asked.toSign (asked : Asked) : Text :=
  Sigv4.toSign region service stamp (asked.canonical lower upper credentials stamp)

theorem sign_rest (asked : Asked) {name : Text} (other : name ≠ str "Authorization") :
    (asked.sign lower upper credentials region service stamp).get? name =
      (signedHeaders lower asked.host stamp asked.payloadHash credentials.sessionToken
        asked.headers).get? name :=
  Dict.get_set_other _ other _

theorem hex_pair : ∀ value < 256, Text.ofHex 2 value =
    [Nat.digitChar (value / 16), Nat.digitChar (value % 16)] := by
  decide +kernel

theorem digit_char_injective : ∀ left < 16, ∀ right < 16,
    Nat.digitChar left = Nat.digitChar right → left = right := by
  decide

theorem hexdigest_cons (byte : UInt8) (rest : Bytes) : hexdigest (byte :: rest) =
    Nat.digitChar (byte.toNat / 16) :: Nat.digitChar (byte.toNat % 16) :: hexdigest rest := by
  rw [hexdigest, List.flatMap_cons, hex_pair _ byte.toNat_lt]
  rfl

theorem hexdigest_length (digest : Bytes) : (hexdigest digest).length = 2 * digest.length := by
  induction digest with
  | nil => rfl
  | cons byte rest induction =>
      rw [hexdigest_cons, List.length_cons, List.length_cons, induction, List.length_cons]
      omega

theorem hexdigest_injective {left right : Bytes} (same : hexdigest left = hexdigest right) :
    left = right := by
  induction left generalizing right with
  | nil =>
      cases right with
      | nil => rfl
      | cons byte rest =>
          rw [hexdigest_cons] at same
          cases same
  | cons byte rest induction =>
      cases right with
      | nil =>
          rw [hexdigest_cons] at same
          cases same
      | cons other others =>
          rw [hexdigest_cons, hexdigest_cons, List.cons.injEq, List.cons.injEq] at same
          have below := byte.toNat_lt
          have under := other.toNat_lt
          have high := digit_char_injective _ (by omega) _ (by omega) same.1
          have low := digit_char_injective _ (by omega) _ (by omega) same.2.1
          have whole : byte = other := UInt8.toNat_inj.mp (by omega)
          rw [whole, induction same.2.2]

theorem cut_first {mark : Char} {left right behind after : Text} (bare : mark ∉ left)
    (plain : mark ∉ right) (same : left ++ mark :: behind = right ++ mark :: after) :
    left = right ∧ behind = after := by
  have parted := congrArg (Text.partition mark) same
  rw [Text.partition_append bare, Text.partition_append plain, Text.partition_self,
    Text.partition_self, List.append_nil, List.append_nil] at parted
  injection parted with front rest
  injection rest with _ rest
  exact ⟨front, rest⟩

theorem cut_last {mark : Char} {left right behind after : Text} (bare : mark ∉ behind)
    (plain : mark ∉ after) (same : left ++ mark :: behind = right ++ mark :: after) :
    left = right ∧ behind = after := by
  have turned := congrArg List.reverse same
  rw [List.reverse_append, List.reverse_append, List.reverse_cons, List.reverse_cons,
    List.append_assoc, List.append_assoc] at turned
  obtain ⟨rest, front⟩ := cut_first (mt List.mem_reverse.mp bare) (mt List.mem_reverse.mp plain) turned
  exact ⟨List.reverse_injective front, List.reverse_injective rest⟩

theorem canonical_uri_bare (path : Text) : '\n' ∉ canonicalUri path :=
  quote_safe_bare (by decide) (by decide) _

theorem canonical_query_bare (query : Text) : '\n' ∉ canonicalQuery query := by
  intro member
  obtain ⟨item, among, inside⟩ := mem_join member (by decide)
  obtain ⟨entry, -, rfl⟩ := List.mem_map.mp among
  have plain (text : Text) : '\n' ∉ quote text := fun held => absurd (quote_safe text '\n' held) (by decide)
  rcases List.mem_append.mp inside with front | behind
  · exact plain entry.1 front
  · rcases List.mem_cons.mp behind with equals | rest
    · exact absurd equals (by decide)
    · exact plain entry.2 rest

/-- The method is one line, and so is the hash of the payload. -/
structure Asked.Lined (asked : Asked) : Prop where
  method : '\n' ∉ upper asked.method
  payload : '\n' ∉ asked.payloadHash

/-- The text of a canonical request says all of it to who knows the names that are signed. -/
theorem canonical_text_injective {first other : Asked} (lined : first.Lined upper)
    (straight : other.Lined upper)
    (names : (first.canonical lower upper credentials stamp).signed =
      (other.canonical lower upper credentials stamp).signed)
    (same : (first.canonical lower upper credentials stamp).text =
      (other.canonical lower upper credentials stamp).text) :
    first.canonical lower upper credentials stamp = other.canonical lower upper credentials stamp := by
  have shape (request : Canonical) : request.text =
      request.method ++ '\n' :: (request.uri ++ '\n' :: (request.query ++ '\n' ::
        ((request.headers ++ '\n' :: request.signed) ++ '\n' :: request.payload))) := by
    simp [Canonical.text, Text.join]
  rw [shape, shape] at same
  obtain ⟨method, same⟩ := cut_first lined.method straight.method same
  obtain ⟨uri, same⟩ := cut_first (canonical_uri_bare _) (canonical_uri_bare _) same
  obtain ⟨query, same⟩ := cut_first (canonical_query_bare _) (canonical_query_bare _) same
  obtain ⟨headers, payload⟩ := cut_last lined.payload straight.payload same
  rw [names] at headers
  have front := List.append_cancel_right headers
  unfold Asked.canonical Sigv4.canonical at *
  simp_all

/-- Two requests with one signature are one canonical request, unless SHA-256 or its HMAC
takes the two texts for one. -/
theorem sign_covers {first other : Asked} (lined : first.Lined upper) (straight : other.Lined upper)
    (digests : Sha256.sha256 (first.canonical lower upper credentials stamp).text.encodeUtf8 =
        Sha256.sha256 (other.canonical lower upper credentials stamp).text.encodeUtf8 →
      (first.canonical lower upper credentials stamp).text =
        (other.canonical lower upper credentials stamp).text)
    (macs : Sha256.hmac (signingKey credentials.secretKey (stamp.take 8) region service)
        (first.toSign lower upper credentials region service stamp).encodeUtf8 =
          Sha256.hmac (signingKey credentials.secretKey (stamp.take 8) region service)
            (other.toSign lower upper credentials region service stamp).encodeUtf8 →
      first.toSign lower upper credentials region service stamp =
        other.toSign lower upper credentials region service stamp)
    (same : (first.sign lower upper credentials region service stamp).get? (str "Authorization") =
      (other.sign lower upper credentials region service stamp).get? (str "Authorization")) :
    first.canonical lower upper credentials stamp = other.canonical lower upper credentials stamp := by
  unfold Asked.sign Sigv4.sign at same
  rw [Dict.get_set_self, Dict.get_set_self, Option.some.injEq] at same
  obtain ⟨front, signature⟩ := List.append_inj' same (by
    rw [hexdigest_length, hexdigest_length, Sha256.hmac_length, Sha256.hmac_length])
  have names := List.append_cancel_left (List.append_cancel_right front)
  have signed := macs (hexdigest_injective signature)
  have listed : hexdigest (Sha256.sha256 (first.canonical lower upper credentials stamp).text.encodeUtf8) =
      hexdigest (Sha256.sha256 (other.canonical lower upper credentials stamp).text.encodeUtf8) := by
    simpa [Asked.toSign, Sigv4.toSign, Text.join] using signed
  exact canonical_text_injective lower upper credentials stamp lined straight names
    (digests (hexdigest_injective listed))

end Covers

theorem folded_stable (text : Text) : folded (folded text) = folded text := by
  rw [folded, folded, List.map_map]
  apply List.map_congr_left
  intro char _
  rw [Function.comp, Char.toLower_toLower_eq_toLower]

/-- A key with a blank, two parameters and a header of its own. -/
def taggedUrl : XRootDURL where
  path := str "/bucket/a b"
  query := ⟨[(str "tagging", []), (str "versionId", str "1+2")], by decide⟩

def taggedHeaders : Headers := ⟨[(str "X-Amz-Meta-Run", str "7")], by decide⟩

theorem tagged_defined : Defined folded taggedUrl
    (requested folded id taggedUrl (str "GET") (str "s3") [] (str "20260101T000000Z") []
      taggedHeaders) := by
  apply (canonical_defined_iff taggedUrl (str "GET") (str "s3") [] (str "20260101T000000Z") []
    taggedHeaders folded_stable).mpr
  exact ⟨by decide, by decide, by decide⟩

/-- Two parameters, of which the one with the escaped name is the higher. -/
def crossedUrl : XRootDURL where
  path := str "/bucket/key"
  query := ⟨[(str "z", str "1"), (str "é", str "2")], by decide⟩

theorem crossed_not_defined : ¬Defined folded crossedUrl
    (requested folded id crossedUrl (str "GET") (str "s3") [] (str "20260101T000000Z") [] ∅) := by
  intro defined
  have same := defined.query
  rw [on_wire] at same
  have shape : (requested folded id crossedUrl (str "GET") (str "s3") []
      (str "20260101T000000Z") [] ∅).query = canonicalQuery (fields (carried crossedUrl)) := by
    rw [← (target_parts crossedUrl).2]
    rfl
  rw [shape, query_defined_iff] at same
  exact absurd same (by decide)

end XRootDClient.S3.Sigv4

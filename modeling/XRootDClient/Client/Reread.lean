import XRootDClient.Client.Opaque
import XRootDClient.Lib.Decimal

/-!
# A URL and its text

What `parse` leaves in a URL, and what it makes of the text `str` writes for one. The
parts of an authority are told apart by marks that no quoting writes and no lowering
makes; a path that was normalized is normalized again to itself. The text of an object
store names no port.
-/

set_option autoImplicit false

namespace XRootDClient.Url

open Lib Lib.Percent

def mark (char : Char) : Bool := ascii char && !char.isAlpha

/-- What a character may become in lower case: a mark stays, and nothing becomes one. -/
def Lowered (char : Char) (piece : Text) : Prop :=
  if mark char then piece = [char] else piece ≠ [] ∧ ∀ other ∈ piece, mark other = false

/-- What a round trip relies on: `str.lower` goes through a text character by character,
and `int` reads the numbers it has made. -/
structure Python.Reads (python : Python) : Prop extends python.Lowers where
  pieces : ∀ text, ∃ pieces, List.Forall₂ Lowered text pieces ∧ python.lower text = pieces.flatten
  number : ∀ text value, python.int text = some value → python.int (Text.ofInt value) = some value
  ports : ∀ port ∈ [443, 80, 1094], python.int (Text.ofInt port) = some port

section Lowering

variable {text : Text} {pieces : List Text} {char : Char}

theorem mem_pieces (lowered : List.Forall₂ Lowered text pieces) (known : mark char = true) :
    char ∈ pieces.flatten ↔ char ∈ text := by
  induction lowered with
  | nil => rfl
  | @cons first piece rest others here _ induction =>
      rw [List.flatten_cons, List.mem_append, induction, List.mem_cons]
      unfold Lowered at here
      split_ifs at here with kept
      · rw [here, List.mem_singleton]
      · have other : char ≠ first := by
          rintro rfl
          exact kept known
        have absent : char ∉ piece := by
          intro member
          rw [here.2 char member] at known
          cases known
        simp [other, absent]

theorem pieces_front {rest : Text} (lowered : List.Forall₂ Lowered text pieces)
    (known : mark char = true) (front : pieces.flatten = char :: rest) :
    ∃ before others, text = char :: before ∧ List.Forall₂ Lowered before others ∧
      rest = others.flatten := by
  cases lowered with
  | nil => cases front
  | @cons first piece before others here later =>
      rw [List.flatten_cons] at front
      unfold Lowered at here
      split_ifs at here with kept
      · rw [here, List.singleton_append] at front
        cases front
        exact ⟨before, others, rfl, later, rfl⟩
      · obtain ⟨head, tail, rfl⟩ := List.exists_cons_of_ne_nil here.1
        cases front
        rw [here.2 char List.mem_cons_self] at known
        cases known

theorem pieces_scheme (lowered : List.Forall₂ Lowered text pieces)
    (bare : splitScheme text = none) : splitScheme pieces.flatten = none := by
  induction lowered with
  | nil => rfl
  | @cons first piece rest others here later induction =>
      rw [splitScheme] at bare
      split_ifs at bare with found
      have below := induction (Option.map_eq_none_iff.mp bare)
      rw [List.flatten_cons]
      unfold Lowered at here
      split_ifs at here with kept
      · rw [here, List.singleton_append, splitScheme, if_neg, Option.map_eq_none_iff]
        · exact below
        · -- both slashes behind the colon were there before
          rintro ⟨colon, slashes⟩
          obtain ⟨more, shape⟩ : ∃ more, others.flatten = '/' :: '/' :: more :=
            ⟨others.flatten.drop 2, by rw [← List.take_append_drop 2 others.flatten, slashes]; rfl⟩
          obtain ⟨second, pieces', rfl, later', same⟩ := pieces_front later rfl shape
          obtain ⟨third, pieces'', rfl, -, -⟩ := pieces_front later' rfl same.symm
          exact found ⟨colon, rfl⟩
      · rw [split_scheme_skip _ others.flatten]
        · exact below
        · exact fun member => absurd (here.2 ':' member) (by decide)

variable {python : Python} (reads : python.Reads)
include reads

theorem mem_lower (known : mark char = true) : char ∈ python.lower text ↔ char ∈ text := by
  obtain ⟨pieces, lowered, same⟩ := reads.pieces text
  rw [same, mem_pieces lowered known]

theorem lower_scheme (bare : splitScheme text = none) : splitScheme (python.lower text) = none := by
  obtain ⟨pieces, lowered, same⟩ := reads.pieces text
  rw [same]
  exact pieces_scheme lowered bare

end Lowering

/-- A URL of a server, or of a bucket, as `parse` leaves it. -/
structure Parsed (python : Python) (url : XRootDURL) : Prop where
  remote : url.scheme ≠ fileScheme
  scheme : splitScheme url.scheme = none
  small : python.lower url.scheme = url.scheme
  host : python.lower url.host = url.host
  slashless : '/' ∉ url.host
  userless : '@' ∉ url.host
  literal : ':' ∈ url.host → ']' ∉ url.host
  port : python.int (Text.ofInt url.port) = some url.port
  based : url.Based
  path : ∃ path, url.path = Client.normalize path

theorem lstrip_front {front rest : Text} (known : Posix.Front front)
    (plain : rest.head? ≠ some Posix.slash) : Posix.lstrip (front ++ rest) = rest := by
  have bare : rest.dropWhile (· = Posix.slash) = rest := by
    cases rest with
    | nil => rfl
    | cons char more =>
        apply List.dropWhile_cons_of_neg
        intro same
        exact plain (congrArg some (of_decide_eq_true same))
  rcases known with rfl | rfl
  · simpa [Posix.lstrip] using bare
  · simpa [Posix.lstrip] using bare

theorem names_head {names : List Text} {trailing : Text}
    (proper : ∀ name ∈ names, Posix.Proper name)
    (either : trailing = [] ∨ trailing = [Posix.slash] ∧ names ≠ []) :
    ([Posix.slash].intercalate names ++ trailing).head? ≠ some Posix.slash := by
  have starts := Posix.intercalate_head proper
  have full : names ≠ [] → [Posix.slash].intercalate names ≠ [] := by
    intro some nothing
    obtain ⟨rest, char, shape, -⟩ := Posix.intercalate_last proper some
    rw [nothing] at shape
    simp at shape
  generalize [Posix.slash].intercalate names = text at starts full ⊢
  cases text with
  | nil =>
      rcases either with rfl | ⟨-, some⟩
      · exact nofun
      · exact absurd rfl (full some)
  | cons char rest =>
      intro same
      cases same
      exact starts rest rfl

theorem normalize_names {names : List Text} {trailing front : Text} (known : Posix.Front front)
    (proper : ∀ name ∈ names, Posix.Proper name)
    (either : trailing = [] ∨ trailing = [Posix.slash] ∧ names ≠ []) :
    Client.normalize (front ++ ([Posix.slash].intercalate names ++ trailing)) =
      Posix.render [Posix.slash] names ++ trailing := by
  have starts := names_head proper either
  have some : front ++ ([Posix.slash].intercalate names ++ trailing) ≠ [] := by
    rcases known with rfl | rfl
    · exact List.cons_ne_nil _ _
    · exact List.cons_ne_nil _ _
  have norm : Posix.normpath (Posix.slash :: ([Posix.slash].intercalate names ++ trailing)) =
      Posix.render [Posix.slash] names := by
    rcases either with rfl | ⟨rfl, more⟩
    · rw [List.append_nil]
      exact Posix.normpath_render (.inl rfl) proper
    · exact Posix.normpath_trailing proper more
  unfold Client.normalize
  rw [if_neg some, lstrip_front known starts, norm]
  dsimp only
  rcases either with rfl | ⟨rfl, more⟩
  · rw [if_neg, List.append_nil]
    rintro ⟨slashed, -, ends⟩
    by_cases none : names = []
    · rw [none] at ends
      exact ends rfl
    · obtain ⟨rest, char, shape, other⟩ := Posix.intercalate_last proper none
      rw [List.append_nil, shape, ← List.append_assoc, List.getLast?_concat] at slashed
      exact other (Option.some.inj slashed)
  · obtain ⟨rest, char, shape, other⟩ := Posix.intercalate_last proper more
    rw [if_pos]
    refine ⟨?_, ?_, ?_⟩
    · rw [← List.append_assoc, List.getLast?_concat]
    · rcases known with rfl | rfl
      · simp
      · simp
    · rw [Posix.render, shape, ← List.append_assoc, List.getLast?_concat]
      exact fun same => other (Option.some.inj same)

/-- A normalized path, whatever slashes its own is replaced by, is normalized to itself. -/
theorem normalize_again {front : Text} (known : Posix.Front front) (path : Text) :
    Client.normalize (front ++ Posix.lstrip (Client.normalize path)) = Client.normalize path := by
  obtain ⟨trailing, shape, given⟩ := Client.normalize_shape path
  have proper := Posix.parts_proper path
  have either : trailing = [] ∨ trailing = [Posix.slash] ∧ Posix.parts true path ≠ [] :=
    given.imp id fun slashed => ⟨slashed.1, slashed.2.2⟩
  rw [shape, Posix.render, List.append_assoc,
    lstrip_front (.inl rfl) (names_head proper either), normalize_names known proper either,
    Posix.render, List.append_assoc]

theorem host_and_port_parts (hostport : Text) :
    (∀ char ∈ (hostAndPort hostport).1, char ∈ hostport) ∧
      (':' ∈ (hostAndPort hostport).1 → ']' ∉ (hostAndPort hostport).1) := by
  unfold hostAndPort
  split_ifs
  · exact ⟨fun char member => List.mem_of_mem_tail (partition_mem_front member),
      fun _ => partition_front ']' hostport.tail⟩
  · exact ⟨fun char member => partition_mem_front member,
      fun colon => absurd colon (partition_front ':' hostport)⟩

theorem credentials_back (authority : Text) :
    '@' ∉ (credentials authority).2.2 ∧ ∀ char ∈ (credentials authority).2.2, char ∈ authority := by
  have back := rpartition_back '@' authority
  unfold credentials
  dsimp only
  split_ifs
  · exact back
  · exact back

section Reading

variable {python : Python} (reads : python.Reads)
include reads

theorem port_again {scheme text : Text} {port : Int} (read : portOf python scheme text = some port) :
    python.int (Text.ofInt port) = some port := by
  unfold portOf at read
  split_ifs at read
  · cases read
    apply reads.ports
    unfold defaultPort
    split_ifs <;> simp
  · exact reads.number text port read

theorem parse_rest_parsed {text scheme rest : Text} {url : XRootDURL}
    (named : splitScheme scheme = none) (small : python.lower scheme = scheme)
    (remote : scheme ≠ fileScheme) (read : parseRest python text scheme rest = .ok url) :
    Parsed python url := by
  unfold parseRest at read
  dsimp only at read
  split at read
  · cases read
  · next port found =>
      cases read
      have front := partition_front '/' rest
      generalize (Text.partition '/' rest).1 = authority at found front ⊢
      have back := credentials_back authority
      generalize (credentials authority).2.2 = hostport at found back ⊢
      obtain ⟨inside, literal⟩ := host_and_port_parts hostport
      have settled := normalize_settled (partition_front '?'
        (if (Text.partition '/' rest).2.1 then '/' :: (Text.partition '/' rest).2.2 else ['/']))
      constructor
      · exact fun same => remote (small.symm.trans same)
      · exact lower_scheme reads named
      · exact reads.again scheme
      · exact reads.again _
      · rw [postInit, mem_lower reads (by decide)]
        exact fun member => front (back.2 _ (inside _ member))
      · rw [postInit, mem_lower reads (by decide)]
        exact fun member => back.1 (inside _ member)
      · rw [postInit, mem_lower reads (by decide), mem_lower reads (by decide)]
        exact literal
      · exact port_again reads found
      · exact ⟨settled.1, settled.2⟩
      · exact ⟨_, rfl⟩

theorem parse_parsed {text : Text} {url : XRootDURL} (read : parse python text = .ok url)
    (remote : url.scheme ≠ fileScheme) : Parsed python url := by
  have named := parse_scheme reads.toLowers read
  unfold parse at read
  cases found : splitScheme text with
  | none =>
      rw [found] at named
      exact absurd named remote
  | some parts =>
      rw [found] at read named
      dsimp only at read named
      rw [if_neg (named ▸ remote)] at read
      exact parse_rest_parsed reads (lower_scheme reads (split_scheme_front found))
        (reads.again parts.1) (named ▸ remote) read

end Reading

namespace XRootDURL

variable (url : XRootDURL)

def authority : Text := if url.scheme ∈ s3Schemes then url.host else url.netloc

def rereadPort : Int := if url.scheme ∈ s3Schemes then 443 else url.port

/-- A host that is told from its port, and that is not taken for the inside of brackets. -/
def Addressed : Prop :=
  if url.scheme ∈ s3Schemes then url.host.head? ≠ some '[' ∧ ':' ∉ url.host
  else url.host.head? = some '[' → ':' ∈ url.host

instance : Decidable url.Addressed := by
  unfold Addressed
  infer_instance

end XRootDURL

theorem of_int_bare {char : Char} (known : char ∈ ['/', '@', ':', ']']) (value : Int) :
    char ∉ Text.ofInt value := by
  have figures : ∀ value < 10, Nat.digitChar value ∉ ['/', '@', ':', ']'] := by decide
  intro member
  rcases Decimal.mem_of_int member with rfl | ⟨figure, bound, rfl⟩
  · exact absurd known (by decide)
  · exact figures figure bound known

section Writing

variable {python : Python} {url : XRootDURL}

theorem authority_bare {char : Char} (known : char = '/' ∨ char = '@') (absent : char ∉ url.host) :
    char ∉ url.authority := by
  have port : char ∉ Text.ofInt url.port := of_int_bare (by rcases known with rfl | rfl <;> simp) _
  have other : char ≠ '[' ∧ char ≠ ']' ∧ char ≠ ':' := by
    rcases known with rfl | rfl <;> decide
  unfold XRootDURL.authority XRootDURL.netloc
  split_ifs <;> simp [absent, port, other]

theorem credentials_written (named : url.password ≠ [] → url.username ≠ [])
    (userless : '@' ∉ url.authority) :
    credentials (url.auth ++ url.authority) = (url.username, url.password, url.authority) := by
  have whole (text : Text) : ':' ∉ quote text := fun member =>
    (quote_plain text ':' member).2.1 rfl
  have unnamed := unquote_eq_nil []
  unfold XRootDURL.auth credentials
  by_cases nobody : url.username = []
  · have secret : url.password = [] := by
      by_contra given
      exact named given nobody
    rw [if_pos nobody, List.nil_append, rpartition_bare userless]
    dsimp only
    rw [if_pos rfl, nobody, secret]
  · have some := quote_some nobody
    rw [if_neg nobody, List.append_assoc, List.singleton_append, rpartition_last userless]
    dsimp only
    rw [if_neg (by simp [some])]
    by_cases secret : url.password = []
    · rw [if_pos secret, List.append_nil, partition_bare (whole _)]
      dsimp only
      rw [unquote_quote, secret, unnamed.mpr rfl]
    · rw [if_neg secret, Text.partition_append (whole _), Text.partition_self]
      dsimp only
      rw [List.append_nil, unquote_quote, unquote_quote]

theorem host_and_port_written (parsed : Parsed python url) (addressed : url.Addressed) :
    hostAndPort url.authority =
      (url.host, if url.scheme ∈ s3Schemes then [] else Text.ofInt url.port) := by
  have port : ':' ∉ Text.ofInt url.port := of_int_bare (by simp) url.port
  unfold XRootDURL.Addressed at addressed
  unfold XRootDURL.authority
  by_cases bucket : url.scheme ∈ s3Schemes
  · rw [if_pos bucket] at addressed
    rw [if_pos bucket, if_pos bucket, hostAndPort, if_neg addressed.1,
      partition_bare addressed.2]
  · rw [if_neg bucket] at addressed
    rw [if_neg bucket, if_neg bucket, XRootDURL.netloc, hostAndPort]
    by_cases literal : ':' ∈ url.host
    · have kept : (':' :: Text.ofInt url.port).dropWhile (· = ':') = Text.ofInt url.port := by
        rw [List.dropWhile_cons_of_pos (by simp)]
        cases shape : Text.ofInt url.port with
        | nil => rfl
        | cons char rest =>
            rw [shape] at port
            apply List.dropWhile_cons_of_neg
            simp only [decide_eq_true_eq]
            exact fun same => port (same ▸ List.mem_cons_self)
      rw [if_pos literal]
      simp only [List.cons_append, List.append_assoc, List.head?_cons, if_true, List.tail_cons,
        List.nil_append]
      rw [Text.partition_append (parsed.literal literal), Text.partition_self]
      dsimp only
      rw [List.append_nil, kept]
    · have open_ : (url.host ++ ':' :: Text.ofInt url.port).head? ≠ some '[' := by
        cases shape : url.host with
        | nil => simp
        | cons char rest =>
            intro same
            exact literal (addressed (by rw [shape]; exact same))
      rw [if_neg literal, if_neg open_, Text.partition_append literal, Text.partition_self]
      dsimp only
      rw [List.append_nil]

theorem port_written (parsed : Parsed python url) :
    portOf python url.scheme (if url.scheme ∈ s3Schemes then [] else Text.ofInt url.port) =
      some url.rereadPort := by
  unfold portOf XRootDURL.rereadPort
  by_cases bucket : url.scheme ∈ s3Schemes
  · rw [if_pos bucket, if_pos bucket, if_pos rfl, List.mem_singleton.mp bucket]
    rfl
  · rw [if_neg bucket, if_neg bucket, if_neg (Decimal.of_int_some url.port)]
    exact parsed.port

theorem target_written (parsed : Parsed python url) {front : Text}
    (known : Posix.Front ('/' :: front)) :
    ∃ path, target true (front ++ Posix.lstrip url.path ++ url.cgiPart) = (path, url.query) ∧
      Client.normalize path = url.path := by
  obtain ⟨path, normal⟩ := parsed.path
  refine ⟨'/' :: front ++ Posix.lstrip url.path, ?_, ?_⟩
  · have bare : '?' ∉ '/' :: front ++ Posix.lstrip url.path := by
      rw [List.mem_append, not_or]
      constructor
      · rcases known with one | two
        · rw [one]
          decide
        · rw [two]
          decide
      · exact fun member => parsed.based.bare ((List.dropWhile_sublist _).subset member)
    have marked : url.cgiPart = [] ∨ url.cgiPart.head? = some '?' := by
      unfold XRootDURL.cgiPart
      split_ifs
      · exact .inl rfl
      · exact .inr rfl
    unfold target
    rw [if_pos rfl, ← List.cons_append, ← List.cons_append, Client.partition_marked bare marked]
    dsimp only
    unfold XRootDURL.cgiPart
    by_cases none : url.query.entries = []
    · rw [if_pos none]
      exact congrArg (Prod.mk _) (Dict.ext none.symm)
    · rw [if_neg none, List.tail_cons, if_neg fun nothing => none ((urlencode_eq_nil _).mp nothing),
        parse_urlencode, Dict.update_empty]
  · rw [normal]
    exact normalize_again known path

end Writing

section Rereading

variable {python : Python} {url : XRootDURL}

theorem reread_remote (parsed : Parsed python url) (named : url.password ≠ [] → url.username ≠ [])
    (addressed : url.Addressed) :
    parse python url.toText = .ok { url with port := url.rereadPort } := by
  obtain ⟨front, known, slashes⟩ : ∃ front, Posix.Front ('/' :: front) ∧
      (if url.scheme ∈ rootSchemes then ['/', '/'] else ['/']) = '/' :: front := by
    split_ifs
    · exact ⟨['/'], .inr rfl, rfl⟩
    · exact ⟨[], .inl rfl, rfl⟩
  have shape : url.toText = url.scheme ++ ':' :: '/' :: '/' :: (url.auth ++ url.authority ++
      '/' :: (front ++ Posix.lstrip url.path ++ url.cgiPart)) := by
    have colon : str "://" = [':', '/', '/'] := rfl
    unfold XRootDURL.toText XRootDURL.place
    rw [if_neg parsed.remote, slashes, colon, ← XRootDURL.authority]
    simp
  have slashless : '/' ∉ url.auth ++ url.authority := by
    have quoted (text : Text) : '/' ∉ quote text := fun member =>
      (quote_plain text '/' member).1 rfl
    rw [List.mem_append, not_or]
    constructor
    · unfold XRootDURL.auth
      split_ifs <;> simp [quoted]
    · exact authority_bare (.inl rfl) parsed.slashless
  obtain ⟨path, split, normal⟩ := target_written parsed known
  rw [shape, parse, split_scheme_append parsed.scheme]
  dsimp only
  rw [parsed.small, if_neg parsed.remote]
  unfold parseRest
  dsimp only
  rw [Text.partition_append slashless, Text.partition_self]
  dsimp only
  rw [List.append_nil, credentials_written named (authority_bare (.inr rfl) parsed.userless)]
  dsimp only
  rw [host_and_port_written parsed addressed]
  dsimp only
  rw [port_written parsed]
  dsimp only
  rw [split]
  dsimp only
  rw [normal, postInit, parsed.small, parsed.host]

theorem parse_file {text : Text} (reads : python.Reads) (marked : splitScheme text ≠ none)
    (read : parse python text = .ok url) (file : url.scheme = fileScheme) :
    url.path ≠ [] ∧ url = { scheme := fileScheme, host := [], port := 0, path := url.path } := by
  have named := parse_scheme reads.toLowers read
  have small : python.lower fileScheme = fileScheme := reads.plain _ (by decide)
  have empty : python.lower [] = [] := reads.plain _ rfl
  unfold parse at read
  cases found : splitScheme text with
  | none => exact absurd found marked
  | some parts =>
      rw [found] at read named
      dsimp only at read named
      rw [if_pos (named.symm.trans file)] at read
      cases read
      rw [postInit, small, empty]
      constructor
      · dsimp only
        split_ifs with nothing
        · exact List.cons_ne_nil _ _
        · exact nothing
      · rfl

theorem reread_file (reads : python.Reads) {path : Text} (some : path ≠ []) :
    parse python (XRootDURL.toText { scheme := fileScheme, host := [], port := 0, path }) =
      .ok { scheme := fileScheme, host := [], port := 0, path } := by
  have small : python.lower fileScheme = fileScheme := reads.plain _ (by decide)
  have empty : python.lower [] = [] := reads.plain _ rfl
  have split : splitScheme (str "file://" ++ path) = .some (fileScheme, path) :=
    @split_scheme_append fileScheme (by decide) path
  unfold XRootDURL.toText
  rw [if_pos rfl, parse, split]
  dsimp only
  rw [if_pos small, if_neg some, postInit, small, empty]

end Rereading

/-- What is parsed is written as a text that is parsed to the same again, but for the
port of a bucket: wherever a password has a user name in front of it, and the host can
be told. -/
theorem parse_written {python : Python} (reads : python.Reads) {text : Text} {url : XRootDURL}
    (marked : splitScheme text ≠ none) (read : parse python text = .ok url)
    (named : url.password ≠ [] → url.username ≠ []) (addressed : url.Addressed) :
    parse python url.toText = .ok { url with port := url.rereadPort } := by
  by_cases file : url.scheme = fileScheme
  · obtain ⟨some, shape⟩ := parse_file reads marked read file
    rw [shape]
    exact reread_file reads some
  · exact reread_remote (parse_parsed reads read file) named addressed

def decimalOnly : Python := { asciiOnly with int := Decimal.int }

theorem lower_letter {char : Char} (other : mark char = false) : mark char.toLower = false := by
  have letters : ∀ code < 91, 65 ≤ code → mark (Char.ofNat code).toLower = false := by decide
  by_cases upper : char.isUpper = true
  · have range : 65 ≤ char.toNat ∧ char.toNat < 91 := by
      simp only [Char.isUpper, decide_eq_true_eq, ge_iff_le, UInt32.le_iff_toNat_le] at upper
      exact ⟨upper.1, Nat.lt_succ_of_le upper.2⟩
    have small := letters char.toNat range.2 range.1
    rwa [Char.ofNat_toNat] at small
  · rw [lower_fixed (Bool.eq_false_iff.mpr upper)]
    exact other

theorem decimal_reads : decimalOnly.Reads where
  again := ascii_lowers.again
  plain := ascii_lowers.plain
  pieces text := by
    refine ⟨text.map fun char => [char.toLower], ?_, ?_⟩
    · rw [List.forall₂_map_right_iff, List.forall₂_same]
      intro char _
      unfold Lowered
      split_ifs with known
      · rw [lower_fixed]
        unfold mark at known
        simp only [Char.isAlpha, Bool.and_eq_true, Bool.not_eq_true', Bool.or_eq_false_iff] at known
        exact known.2.1
      · refine ⟨List.cons_ne_nil _ _, fun other member => ?_⟩
        rw [List.mem_singleton.mp member]
        exact lower_letter (Bool.eq_false_iff.mpr known)
    · exact List.map_eq_flatMap
  number text value _ := Decimal.int_of_int value
  ports port _ := Decimal.int_of_int port

/-- The text of an object store's URL names no port, whichever it has. -/
theorem bucket_port_dropped :
    ¬∀ (python : Python), python.Reads → ∀ (text : Text) (url : XRootDURL),
      splitScheme text ≠ none → parse python text = .ok url →
        parse python url.toText = .ok url := by
  intro same
  have read : parse decimalOnly (str "s3://bucket:9000/key") =
      .ok { scheme := str "s3", host := str "bucket", port := 9000, path := str "/key" } := by
    decide +kernel
  have again := same decimalOnly decimal_reads _ _ (by decide) read
  revert again
  decide +kernel

/-- A host in brackets, a user name and a password with marks in them, and a key given
twice. -/
theorem literal_reread :
    ∃ url, parse decimalOnly (str "ROOT://a%40b:c%3Ad@[::1]:1095//x/../d/?k=1&k=&z") = .ok url ∧
      parse decimalOnly url.toText = .ok { url with port := url.rereadPort } := by
  have read : parse decimalOnly (str "ROOT://a%40b:c%3Ad@[::1]:1095//x/../d/?k=1&k=&z") = .ok
      { scheme := str "root", host := str "::1", port := 1095, path := str "/d/"
        username := str "a@b", password := str "c:d"
        query := Dict.update ∅ [(str "k", []), (str "z", [])] } := by
    decide +kernel
  exact ⟨_, read, parse_written decimal_reads (by decide) read (by decide) (by decide)⟩

end XRootDClient.Url

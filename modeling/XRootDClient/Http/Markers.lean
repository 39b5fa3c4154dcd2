import XRootDClient.Http.Client
import XRootDClient.Lib.Collation
import XRootDClient.Lib.Decimal
import XRootDClient.Lib.Latest

/-!
# Performance markers

The body of a third-party copy over HTTP: blocks that say how far each stripe has got, and
a last line that says how it went. A stripe's later report replaces its earlier one, what
was transferred is what the stripes come to, and a body that ends before its last line is
no transfer.
-/

set_option autoImplicit false

namespace XRootDClient.Http.Markers

open Lib Lib.BigEndian Url

/-- What is looked for in text beside `str.lower`: `str.isalnum` of a character. -/
structure Reading where
  python : Python
  alnum : Char → Bool

/-- What `str.lower` is relied on for: what it does to ASCII. -/
def Reading.Ascii (reading : Reading) : Prop :=
  ∀ text : Text, (∀ char ∈ text, Percent.ascii char = true) →
    reading.python.lower text = text.map Char.toLower

def MAX_LINE : Nat := 2 ^ 16

def readline : Nat → Bytes → Bytes × Bytes
  | 0, left => ([], left)
  | _, [] => ([], [])
  | limit + 1, byte :: rest =>
      if byte = 0x0A then ([byte], rest)
      else (byte :: (readline limit rest).1, (readline limit rest).2)

inductive Line
  | outcome (text : Text)
  | start
  | finish
  | field (name value : Text)
  | other
  deriving DecidableEq

variable (reading : Reading)

def lineOf (line : Bytes) : Line :=
  let text := Text.strip (Text.decodeUtf8 line)
  if text = [] then .other
  else
    let lowered := reading.python.lower text
    if [str "success", str "failure", str "failed"].any (·.isPrefixOf lowered) then .outcome text
    else if lowered = str "perf marker" then .start
    else if lowered = str "end" then .finish
    else if ':' ∈ text then
      let (name, _, value) := Text.partition ':' text
      .field (reading.python.lower (Text.strip name)) (Text.strip value)
    else .other

structure Marker where
  index : Int
  transferred : Int
  stripes : Int := 1
  timestamp : Int := 0
  deriving DecidableEq

def int (value : Option Text) (default : Int) : Int := (value.bind Decimal.int).getD default

def marker (block : Dict Text Text) : Option Marker :=
  match (block.get? (str "stripe bytes transferred")).bind Decimal.int with
  | none => none
  | some transferred => some
      { index := int (block.get? (str "stripe index")) 0
        transferred := transferred
        stripes := int (block.get? (str "total stripe count")) 1
        timestamp := int (block.get? (str "timestamp")) 0 }

def digit (char : Char) : Bool := (Decimal.digitValue char).isSome

def word (char : Char) : Bool := reading.alnum char || char == '_'

/-- `\b([45]\d\d)\b` at one place, with what stands before it. -/
def statusHere (before : Option Char) : Text → Option Nat
  | first :: second :: third :: rest =>
      if (first = '4' ∨ first = '5') ∧ digit second ∧ digit third ∧
          (before.all fun char => !word reading char) ∧ (rest.head?.all fun char => !word reading char)
      then Decimal.unsigned [first, second, third]
      else none
  | _ => none

/-- `_STATUS.search`. -/
def status (before : Option Char) : Text → Option Nat
  | [] => none
  | char :: rest => (statusHere reading before (char :: rest)).or (status (some char) rest)

def outcome (url : XRootDURL) (text : Text) : Option Exception :=
  if (str "success").isPrefixOf (reading.python.lower text) then none
  else
    let behind := Text.strip (Text.partition ':' text).2.2
    let detail := if behind = [] then text else behind
    let code := match status reading none detail with
      | some found => statusCode found []
      | none => 3012
    Errors.raiseForStatus code (str "third-party copy failed: " ++ detail) (some url.path)

/-- The stripes and the block of `_follow`, and what it has told `progress`. -/
structure Progress where
  stripes : Dict Int Int := ∅
  block : Dict Text Text := ∅
  told : List Int := []

def Progress.take (progress : Progress) : Line → Progress
  | .start => { progress with block := ∅ }
  | .finish =>
      match marker progress.block with
      | none => progress
      | some marker =>
          let stripes := progress.stripes.set marker.index marker.transferred
          { progress with stripes := stripes, told := progress.told ++ [Latest.sum stripes] }
  | .field name value => { progress with block := progress.block.set name value }
  | _ => progress

def closed (url : XRootDURL) : Exception :=
  .protocolError (url.host ++ str " closed the connection before reporting the outcome of the copy")

theorem readline_parts (limit : Nat) (left : Bytes) :
    (readline limit left).1 ++ (readline limit left).2 = left := by
  induction limit generalizing left with
  | zero => rfl
  | succ limit induction =>
      cases left with
      | nil => rfl
      | cons byte rest =>
          rw [readline]
          by_cases ended : byte = 0x0A
          · rw [if_pos ended]
            rfl
          · rw [if_neg ended]
            exact congrArg (byte :: ·) (induction rest)

theorem readline_shorter {left : Bytes} (some_ : (readline MAX_LINE left).1 ≠ []) :
    (readline MAX_LINE left).2.length < left.length := by
  have parts := congrArg List.length (readline_parts MAX_LINE left)
  have positive := List.length_pos_of_ne_nil some_
  rw [List.length_append] at parts
  omega

/-- `_follow`: what was transferred or what is raised, and what `progress` was told. -/
def follow (url : XRootDURL) (progress : Progress) (left : Bytes) :
    Except Exception Int × List Int :=
  if none_ : (readline MAX_LINE left).1 = [] then (.error (closed url), progress.told)
  else
    match lineOf reading (readline MAX_LINE left).1 with
    | .outcome text =>
        match outcome reading url text with
        | some raised => (.error raised, progress.told)
        | none => (.ok (Latest.sum progress.stripes), progress.told)
    | line => follow url (progress.take line) (readline MAX_LINE left).2
termination_by left.length
decreasing_by exact readline_shorter none_

def linesOf (left : Bytes) : List Bytes :=
  if none_ : (readline MAX_LINE left).1 = [] then []
  else (readline MAX_LINE left).1 :: linesOf (readline MAX_LINE left).2
termination_by left.length
decreasing_by exact readline_shorter none_

def Plain (line : Bytes) : Prop := ∀ text, lineOf reading line ≠ .outcome text

/-- What the blocks of some lines report, a block being open: stripe and bytes. -/
def heard (block : Dict Text Text) : List Line → List (Int × Int)
  | [] => []
  | .start :: rest => heard ∅ rest
  | .finish :: rest =>
      ((marker block).map fun marker => (marker.index, marker.transferred)).toList ++ heard block rest
  | .field name value :: rest => heard (block.set name value) rest
  | _ :: rest => heard block rest

def running (reports : List (Int × Int)) : List Int := reports.inits.tail.map Latest.total

/-- What the stripes come to after each report, from some stripes on. -/
def runningFrom (stripes : Dict Int Int) (reports : List (Int × Int)) : List Int :=
  reports.inits.tail.map fun front => Latest.sum (stripes.update front)

theorem running_from_empty (reports : List (Int × Int)) : runningFrom ∅ reports = running reports :=
  List.map_congr_left fun front _ => Latest.sum_update front

theorem running_from_cons (stripes : Dict Int Int) (report : Int × Int) (rest : List (Int × Int)) :
    runningFrom stripes (report :: rest) =
      Latest.sum (stripes.set report.1 report.2) ::
        runningFrom (stripes.set report.1 report.2) rest := by
  rw [runningFrom, runningFrom, List.inits_cons, List.tail_cons, List.map_map]
  cases rest with
  | nil => rfl
  | cons next more =>
      rw [List.inits_cons]
      rfl

theorem taken (progress : Progress) (lines : List Line) :
    (lines.foldl Progress.take progress).stripes =
        progress.stripes.update (heard progress.block lines) ∧
      (lines.foldl Progress.take progress).told =
        progress.told ++ runningFrom progress.stripes (heard progress.block lines) := by
  induction lines generalizing progress with
  | nil => exact ⟨rfl, (List.append_nil _).symm⟩
  | cons line rest induction =>
      rw [List.foldl_cons]
      obtain ⟨stripes, told⟩ := induction (progress.take line)
      rw [stripes, told]
      cases line with
      | outcome text => exact ⟨rfl, rfl⟩
      | start => exact ⟨rfl, rfl⟩
      | field name value => exact ⟨rfl, rfl⟩
      | other => exact ⟨rfl, rfl⟩
      | finish =>
          rw [Progress.take, heard]
          cases found : marker progress.block with
          | none => exact ⟨rfl, rfl⟩
          | some report =>
              refine ⟨rfl, ?_⟩
              rw [Option.map_some, Option.toList_some, List.singleton_append, running_from_cons]
              exact List.append_assoc _ _ _

section Follows

variable {reading : Reading} {url : XRootDURL}

theorem follow_stops {progress : Progress} {left line : Bytes} {before after : List Bytes}
    {text : Text} (parted : linesOf left = before ++ line :: after)
    (plain : ∀ line ∈ before, Plain reading line) (said : lineOf reading line = .outcome text) :
    follow reading url progress left =
      ((match outcome reading url text with
        | some raised => .error raised
        | none => .ok (Latest.sum ((before.map (lineOf reading)).foldl Progress.take progress).stripes)),
        ((before.map (lineOf reading)).foldl Progress.take progress).told) := by
  induction before generalizing progress left with
  | nil =>
      rw [linesOf] at parted
      split at parted
      case isTrue => cases parted
      case isFalse some_ =>
          have first := (List.cons.inj parted).1
          rw [follow, dif_neg some_, first, said]
          dsimp only
          cases outcome reading url text with
          | some raised => rfl
          | none => rfl
  | cons front more induction =>
      rw [linesOf] at parted
      split at parted
      case isTrue => cases parted
      case isFalse some_ =>
          obtain ⟨first, rest⟩ := List.cons.inj parted
          obtain ⟨here, later⟩ := List.forall_mem_cons.mp plain
          rw [follow, dif_neg some_, first]
          cases kind : lineOf reading front with
          | outcome text => exact absurd kind (here text)
          | _ =>
              dsimp only
              rw [induction rest later, List.map_cons, List.foldl_cons, kind]

theorem follow_ends {progress : Progress} {left : Bytes}
    (plain : ∀ line ∈ linesOf left, Plain reading line) :
    follow reading url progress left =
      (.error (closed url), (((linesOf left).map (lineOf reading)).foldl Progress.take progress).told) := by
  generalize parted : linesOf left = lines at plain
  induction lines generalizing progress left with
  | nil =>
      rw [linesOf] at parted
      split at parted
      case isTrue none_ =>
          rw [follow, dif_pos none_]
          rfl
      case isFalse => cases parted
  | cons front more induction =>
      rw [linesOf] at parted
      split at parted
      case isTrue => cases parted
      case isFalse some_ =>
          obtain ⟨first, rest⟩ := List.cons.inj parted
          obtain ⟨here, later⟩ := List.forall_mem_cons.mp plain
          rw [follow, dif_neg some_, first]
          cases kind : lineOf reading front with
          | outcome text => exact absurd kind (here text)
          | _ =>
              dsimp only
              rw [induction rest later, List.map_cons, List.foldl_cons, kind]

end Follows

def field (name : Text) (value : Int) : Text := name ++ str ": " ++ Text.ofInt value

def Marker.lines (marker : Marker) : List Text :=
  [str "Perf Marker", field (str "Timestamp") marker.timestamp,
    field (str "Stripe Index") marker.index,
    field (str "Stripe Bytes Transferred") marker.transferred,
    field (str "Total Stripe Count") marker.stripes, str "End"]

def wire (lines : List Text) : Bytes := lines.flatMap fun line => Text.encodeUtf8 line ++ [0x0A]

def rendered (markers : List Marker) : Bytes := wire (markers.flatMap Marker.lines)

/-- Numbers whose lines are short enough to be believed. -/
def Marker.Short (marker : Marker) : Prop :=
  ∀ number ∈ [marker.timestamp, marker.index, marker.transferred, marker.stripes],
    (Text.ofInt number).length < 2 ^ 15

/-- A text that is one line: in ASCII, without blanks at its ends and not too long. -/
structure Single (text : Text) : Prop where
  ascii : ∀ char ∈ text, Percent.ascii char = true
  single : '\n' ∉ text
  first : ∀ char ∈ text.head?, Text.isSpace char = false
  last : ∀ char ∈ text.getLast?, Text.isSpace char = false
  short : text.length < MAX_LINE

theorem known_of {Item : Type} {known : Option Item} {holds : Item → Prop} (item : Item)
    (same : known = some item) (here : holds item) : ∀ each ∈ known, holds each := by
  rw [same]
  intro each member
  cases member
  exact here

theorem encode_low {text : Text} (ascii : ∀ char ∈ text, Percent.ascii char = true) :
    Text.encodeUtf8 text = text.map fun char => UInt8.ofNat char.toNat := by
  induction text with
  | nil => rfl
  | cons char rest induction =>
      obtain ⟨here, later⟩ := List.forall_mem_cons.mp ascii
      rw [Text.encodeUtf8, List.flatMap_cons, Collation.encode_ascii here, List.map_cons]
      exact congrArg (UInt8.ofNat char.toNat :: ·) (induction later)

theorem encode_single {text : Text} (single : Single text) : (0x0A : UInt8) ∉ Text.encodeUtf8 text := by
  rw [encode_low single.ascii, List.mem_map]
  rintro ⟨char, member, same⟩
  have low : char.toNat < 128 := of_decide_eq_true (single.ascii char member)
  have value := congrArg UInt8.toNat same
  rw [UInt8.toNat_ofNat_of_lt' (by rw [UInt8.size]; omega)] at value
  have newline : char = '\n' := Char.toNat_inj.mp value
  rw [newline] at member
  exact single.single member

theorem encode_short {text : Text} (single : Single text) :
    (Text.encodeUtf8 text).length < MAX_LINE := by
  rw [encode_low single.ascii, List.length_map]
  exact single.short

theorem readline_line (rest : Bytes) {limit : Nat} {line : Bytes} (single : (0x0A : UInt8) ∉ line)
    (short : line.length < limit) : readline limit (line ++ 0x0A :: rest) = (line ++ [0x0A], rest) := by
  induction line generalizing limit with
  | nil =>
      cases limit with
      | zero => cases short
      | succ more => rfl
  | cons byte line induction =>
      cases limit with
      | zero => cases short
      | succ more =>
          rw [List.mem_cons, not_or] at single
          have less : line.length < more := Nat.lt_of_succ_lt_succ short
          rw [List.cons_append, readline, if_neg (Ne.symm single.1), induction single.2 less]
          rfl

theorem line_begun {begun line : Bytes} (bare : (0x0A : UInt8) ∉ begun)
    (short : begun.length < MAX_LINE) (member : line ∈ linesOf begun) : line = begun := by
  have read : ∀ {limit : Nat} {line : Bytes}, (0x0A : UInt8) ∉ line → line.length < limit →
      readline limit line = (line, []) := by
    intro limit line bare short
    induction line generalizing limit with
    | nil => cases limit <;> rfl
    | cons byte rest induction =>
        cases limit with
        | zero => cases short
        | succ more =>
            rw [List.mem_cons, not_or] at bare
            rw [readline, if_neg (Ne.symm bare.1), induction bare.2 (Nat.lt_of_succ_lt_succ short)]
  have none_ : linesOf [] = [] := by
    rw [linesOf]
    rfl
  rw [linesOf, read bare short] at member
  split at member
  · cases member
  · rw [none_] at member
    exact List.mem_singleton.mp member

theorem lines_wire {lines : List Text} (single : ∀ line ∈ lines, Single line) (rest : Bytes) :
    linesOf (wire lines ++ rest) =
      lines.map (fun line => Text.encodeUtf8 line ++ [0x0A]) ++ linesOf rest := by
  induction lines with
  | nil => rfl
  | cons line more induction =>
      obtain ⟨here, later⟩ := List.forall_mem_cons.mp single
      have shape : wire (line :: more) ++ rest =
          Text.encodeUtf8 line ++ 0x0A :: (wire more ++ rest) := by
        rw [wire, List.flatMap_cons, List.append_assoc, List.append_assoc]
        rfl
      have read := readline_line (wire more ++ rest) (encode_single here) (encode_short here)
      rw [shape, linesOf, read]
      dsimp only
      rw [dif_neg (by simp), induction later]
      rfl

theorem drop_front {text : Text} (rest : Text) (some_ : text ≠ [])
    (first : ∀ char ∈ text.head?, Text.isSpace char = false) :
    (text ++ rest).dropWhile Text.isSpace = text ++ rest := by
  cases text with
  | nil => exact absurd rfl some_
  | cons char more =>
      have solid := first char rfl
      rw [List.cons_append, List.dropWhile_cons_of_neg (by rw [solid]; decide)]

theorem line_text {text : Text} (single : Single text) :
    Text.strip (Text.decodeUtf8 (Text.encodeUtf8 text ++ [0x0A])) = text := by
  have whole : Text.encodeUtf8 text ++ [0x0A] = Text.encodeUtf8 (text ++ ['\n']) := by
    rw [Text.encodeUtf8, Text.encodeUtf8, List.flatMap_append]
    rfl
  rw [whole, Text.decode_encode, Text.strip]
  by_cases empty : text = []
  · rw [empty]
    decide
  · have last : ∀ char ∈ text.reverse.head?, Text.isSpace char = false := by
      rw [List.head?_reverse]
      exact single.last
    have bare := drop_front [] (List.reverse_ne_nil_iff.mpr empty) last
    rw [List.append_nil] at bare
    rw [drop_front _ empty single.first, List.reverse_append, List.reverse_singleton,
      List.singleton_append, List.dropWhile_cons_of_pos (by decide), bare, List.reverse_reverse]

theorem strip_prefix {text front : Text} (first : ∀ char ∈ text.head?, Text.isSpace char = false)
    (begun : front <+: text) : Text.strip front <+: text := by
  cases front with
  | nil => exact List.nil_prefix
  | cons char rest =>
      obtain ⟨behind, rfl⟩ := begun
      have bare := drop_front [] (List.cons_ne_nil char rest) first
      rw [List.append_nil] at bare
      rw [Text.strip, bare]
      have trimmed : ((char :: rest).reverse.dropWhile Text.isSpace).reverse <+: char :: rest := by
        rw [← List.reverse_suffix, List.reverse_reverse]
        exact List.dropWhile_suffix _
      exact trimmed.trans (List.prefix_append _ _)

section Written

variable {reading : Reading}

def Quiet (text : Text) : Prop :=
  ∀ said ∈ [str "success", str "failure", str "failed"], ¬ said <+: text.map Char.toLower

theorem plain_begun (ascii : reading.Ascii) {text : Text} (single : Single text) (quiet : Quiet text)
    {begun : Bytes} (front : begun <+: Text.encodeUtf8 text ++ [0x0A]) : Plain reading begun := by
  obtain ⟨part, inside, read⟩ : ∃ part, part <+: text ∧
      Text.strip (Text.decodeUtf8 begun) = part := by
    rcases List.prefix_concat_iff.mp front with whole | within
    · refine ⟨text, List.prefix_rfl, ?_⟩
      rw [whole]
      exact line_text single
    · rw [encode_low single.ascii] at within
      have shape := List.prefix_iff_eq_take.mp within
      rw [← List.map_take] at shape
      have low : ∀ char ∈ text.take begun.length, Percent.ascii char = true := fun char member =>
        single.ascii char (List.mem_of_mem_take member)
      refine ⟨_, strip_prefix single.first (List.take_prefix begun.length text), ?_⟩
      rw [← encode_low low] at shape
      rw [shape, Text.decode_encode, ← shape]
  intro said same
  have low : ∀ char ∈ part, Percent.ascii char = true := fun char member =>
    single.ascii char (inside.subset member)
  rw [lineOf, read, ascii part low] at same
  dsimp only at same
  split at same
  · cases same
  · split at same
    case isTrue marked =>
        obtain ⟨word, member, starts⟩ := List.any_eq_true.mp marked
        exact quiet word member ((List.isPrefixOf_iff_prefix.mp starts).trans (inside.map _))
    case isFalse =>
        split at same
        · cases same
        · split at same
          · cases same
          · split at same <;> cases same

theorem line_of (ascii : reading.Ascii) {text : Text} (single : Single text) (some_ : text ≠ [])
    (quiet : Quiet text) :
    lineOf reading (Text.encodeUtf8 text ++ [0x0A]) =
      if text.map Char.toLower = str "perf marker" then .start
      else if text.map Char.toLower = str "end" then .finish
      else if ':' ∈ text then
        .field (reading.python.lower (Text.strip (Text.partition ':' text).1))
          (Text.strip (Text.partition ':' text).2.2)
      else .other := by
  have said : ([str "success", str "failure", str "failed"].any
      (·.isPrefixOf (text.map Char.toLower))) = false := by
    apply List.any_eq_false.mpr
    intro word member starts
    exact quiet word member (List.isPrefixOf_iff_prefix.mp starts)
  rw [lineOf, line_text single]
  dsimp only
  rw [if_neg some_, ascii text single.ascii, said, if_neg Bool.false_ne_true]

structure Name (name : Text) : Prop where
  ascii : ∀ char ∈ name, Percent.ascii char = true
  single : '\n' ∉ name
  bare : ':' ∉ name
  some_ : name ≠ []
  first : ∀ char ∈ name.head?, Text.isSpace char = false
  whole : Text.strip name = name
  short : name.length < 2 ^ 10
  quiet : ∀ said ∈ [str "success", str "failure", str "failed"],
    ¬ said <+: name.map Char.toLower ∧ ¬ name.map Char.toLower <+: said

section Fields

variable {name : Text} {value : Int}

theorem figure_low {char : Char} (member : char ∈ Text.ofInt value) :
    Percent.ascii char = true ∧ char ≠ '\n' := by
  rcases Decimal.mem_of_int member with rfl | ⟨figure, bound, rfl⟩
  · decide
  · have figures : ∀ figure < 10, Percent.ascii (Nat.digitChar figure) = true ∧
        Nat.digitChar figure ≠ '\n' := by decide
    exact figures figure bound

theorem field_single (named : Name name) (short : (Text.ofInt value).length < 2 ^ 15) :
    Single (field name value) where
  ascii := by
    intro char member
    rw [field, List.mem_append, List.mem_append] at member
    rcases member with (inside | mark) | figure
    · exact named.ascii char inside
    · have marks : ∀ char ∈ str ": ", Percent.ascii char = true := by decide
      exact marks char mark
    · exact (figure_low figure).1
  single := by
    rw [field, List.mem_append, List.mem_append]
    rintro ((inside | mark) | figure)
    · exact named.single inside
    · exact absurd mark (by decide)
    · exact (figure_low figure).2 rfl
  first := by
    rw [field, List.append_assoc, List.head?_append_of_ne_nil _ named.some_]
    exact named.first
  last := by
    rw [field, List.getLast?_append_of_ne_nil _ (Decimal.of_int_some value)]
    intro char found
    exact Decimal.of_int_bare value char (List.mem_of_getLast? found)
  short := by
    have limit := named.short
    rw [field, List.length_append, List.length_append, MAX_LINE]
    change name.length + 2 + (Text.ofInt value).length < 2 ^ 16
    omega

theorem field_quiet (named : Name name) : Quiet (field name value) := by
  intro said member starts
  obtain ⟨longer, shorter⟩ := named.quiet said member
  rw [field, List.append_assoc, List.map_append] at starts
  rcases List.prefix_or_prefix_of_prefix starts (List.prefix_append _ _) with inside | outside
  · exact longer inside
  · exact shorter outside

theorem field_read (ascii : reading.Ascii) (named : Name name)
    (short : (Text.ofInt value).length < 2 ^ 15) :
    lineOf reading (Text.encodeUtf8 (field name value) ++ [0x0A]) =
      .field (name.map Char.toLower) (Text.ofInt value) := by
  have marked : ':' ∈ field name value := by
    rw [field, List.append_assoc]
    exact List.mem_append_right _ List.mem_cons_self
  have lowered : ':' ∈ (field name value).map Char.toLower := List.mem_map.mpr ⟨':', marked, rfl⟩
  have some_ : field name value ≠ [] := List.ne_nil_of_mem marked
  have cut : Text.partition ':' (field name value) = (name, true, ' ' :: Text.ofInt value) := by
    have colon : str ": " ++ Text.ofInt value = ':' :: ' ' :: Text.ofInt value := rfl
    rw [field, List.append_assoc, Text.partition_append named.bare, colon, Text.partition_self,
      List.append_nil]
  have behind : Text.strip (' ' :: Text.ofInt value) = Text.ofInt value := by
    have blank : Text.strip (' ' :: Text.ofInt value) = Text.strip (Text.ofInt value) := by
      rw [Text.strip, Text.strip, List.dropWhile_cons_of_pos (by decide)]
    rw [blank, Decimal.strip_self (Decimal.of_int_bare value)]
  rw [line_of ascii (field_single named short) some_ (field_quiet named), if_neg, if_neg, if_pos marked,
    cut, named.whole, behind, ascii name named.ascii]
  · intro same
    rw [same] at lowered
    exact absurd lowered (by decide)
  · intro same
    rw [same] at lowered
    exact absurd lowered (by decide)

end Fields

theorem timestamp_name : Name (str "Timestamp") :=
  ⟨by decide, by decide, by decide, by decide, known_of 'T' (by decide) (by decide), by decide,
    by decide, by decide⟩

theorem index_name : Name (str "Stripe Index") :=
  ⟨by decide, by decide, by decide, by decide, known_of 'S' (by decide) (by decide), by decide,
    by decide, by decide⟩

theorem transferred_name : Name (str "Stripe Bytes Transferred") :=
  ⟨by decide, by decide, by decide, by decide, known_of 'S' (by decide) (by decide), by decide,
    by decide, by decide⟩

theorem count_name : Name (str "Total Stripe Count") :=
  ⟨by decide, by decide, by decide, by decide, known_of 'T' (by decide) (by decide), by decide,
    by decide, by decide⟩

theorem start_single : Single (str "Perf Marker") :=
  ⟨by decide, by decide, known_of 'P' (by decide) (by decide), known_of 'r' (by decide) (by decide),
    by decide⟩

theorem finish_single : Single (str "End") :=
  ⟨by decide, by decide, known_of 'E' (by decide) (by decide), known_of 'd' (by decide) (by decide),
    by decide⟩

theorem start_quiet : Quiet (str "Perf Marker") := by
  unfold Quiet
  decide

theorem finish_quiet : Quiet (str "End") := by
  unfold Quiet
  decide

theorem marker_lines {marker : Marker} (short : marker.Short) :
    ∀ line ∈ marker.lines, Single line ∧ Quiet line := by
  intro line member
  simp only [Marker.lines, List.mem_cons, List.not_mem_nil, or_false] at member
  rcases member with rfl | rfl | rfl | rfl | rfl | rfl
  · exact ⟨start_single, start_quiet⟩
  · exact ⟨field_single timestamp_name (short _ (by simp)), field_quiet timestamp_name⟩
  · exact ⟨field_single index_name (short _ (by simp)), field_quiet index_name⟩
  · exact ⟨field_single transferred_name (short _ (by simp)), field_quiet transferred_name⟩
  · exact ⟨field_single count_name (short _ (by simp)), field_quiet count_name⟩
  · exact ⟨finish_single, finish_quiet⟩

theorem marker_heard (ascii : reading.Ascii) {marker : Marker} (short : marker.Short)
    (block : Dict Text Text) (rest : List Line) : ∃ after,
      heard block (marker.lines.map (fun line => lineOf reading (Text.encodeUtf8 line ++ [0x0A])) ++ rest) =
        (marker.index, marker.transferred) :: heard after rest := by
  have start : lineOf reading (Text.encodeUtf8 (str "Perf Marker") ++ [0x0A]) = .start := by
    rw [line_of ascii start_single (by decide) start_quiet]
    exact if_pos (by decide)
  have finish : lineOf reading (Text.encodeUtf8 (str "End") ++ [0x0A]) = .finish := by
    rw [line_of ascii finish_single (by decide) finish_quiet, if_neg (by decide)]
    exact if_pos (by decide)
  have timestamp := field_read ascii timestamp_name (short marker.timestamp (by simp))
  have index := field_read ascii index_name (short marker.index (by simp))
  have transferred := field_read ascii transferred_name (short marker.transferred (by simp))
  have count := field_read ascii count_name (short marker.stripes (by simp))
  rw [Marker.lines]
  simp only [List.map_cons, List.map_nil, List.cons_append, List.nil_append, start, finish,
    timestamp, index, transferred, count, heard]
  generalize filled : ((((∅ : Dict Text Text).set _ _).set _ _).set _ _).set _ _ = after
  have bytes_ : after.get? (str "stripe bytes transferred") = some (Text.ofInt marker.transferred) := by
    rw [← filled]
    rfl
  have place : after.get? (str "stripe index") = some (Text.ofInt marker.index) := by
    rw [← filled]
    rfl
  refine ⟨after, ?_⟩
  rw [Markers.marker, bytes_, place, Option.bind_some, Decimal.int_of_int]
  dsimp only
  rw [int, Option.bind_some, Decimal.int_of_int]
  rfl

theorem markers_heard (ascii : reading.Ascii) {markers : List Marker}
    (short : ∀ marker ∈ markers, marker.Short) (block : Dict Text Text) :
    heard block ((markers.flatMap Marker.lines).map
        (fun line => lineOf reading (Text.encodeUtf8 line ++ [0x0A]))) =
      markers.map fun marker => (marker.index, marker.transferred) := by
  induction markers generalizing block with
  | nil => rfl
  | cons marker rest induction =>
      obtain ⟨here, later⟩ := List.forall_mem_cons.mp short
      rw [List.flatMap_cons, List.map_append]
      obtain ⟨after, reported⟩ := marker_heard ascii here block
        ((rest.flatMap Marker.lines).map (fun line => lineOf reading (Text.encodeUtf8 line ++ [0x0A])))
      rw [reported, induction later]
      rfl

theorem cut_plain (ascii : reading.Ascii) {lines : List Text}
    (known : ∀ line ∈ lines, Single line ∧ Quiet line) (cut : Nat) :
    ∀ line ∈ linesOf ((wire lines).take cut), Plain reading line := by
  induction lines generalizing cut with
  | nil =>
      have none_ : linesOf ((wire []).take cut) = [] := by
        rw [wire, List.flatMap_nil, List.take_nil, linesOf]
        rfl
      rw [none_]
      intro line member
      cases member
  | cons text rest induction =>
      obtain ⟨⟨single, quiet⟩, later⟩ := List.forall_mem_cons.mp known
      have shape : wire (text :: rest) = (Text.encodeUtf8 text ++ [0x0A]) ++ wire rest := by
        rw [wire, List.flatMap_cons]
        rfl
      rw [shape, List.take_append]
      by_cases whole : (Text.encodeUtf8 text ++ [0x0A]).length ≤ cut
      · have first : ∀ line ∈ [text], Single line := by
          intro line member
          rw [List.mem_singleton.mp member]
          exact single
        have here := lines_wire first ((wire rest).take (cut - (Text.encodeUtf8 text ++ [0x0A]).length))
        rw [wire, List.flatMap_singleton, List.map_singleton, List.singleton_append] at here
        rw [List.take_of_length_le whole, here]
        intro line member
        rcases List.mem_cons.mp member with rfl | behind
        · exact plain_begun ascii single quiet List.prefix_rfl
        · exact induction later _ line behind
      · have less : cut ≤ (Text.encodeUtf8 text).length := by
          rw [List.length_append, List.length_singleton] at whole
          omega
        have none_ : cut - (Text.encodeUtf8 text ++ [0x0A]).length = 0 := by omega
        rw [none_, List.take_zero, List.append_nil, List.take_append_of_le_length less]
        have bare : (0x0A : UInt8) ∉ (Text.encodeUtf8 text).take cut := fun member =>
          encode_single single (List.mem_of_mem_take member)
        have size : ((Text.encodeUtf8 text).take cut).length < MAX_LINE :=
          lt_of_le_of_lt (List.length_take_le' _ _) (encode_short single)
        intro line member
        rw [line_begun bare size member]
        exact plain_begun ascii single quiet
          ((List.take_prefix _ _).trans (List.prefix_append _ _))

end Written

/-- A copy over HTTP comes to what its body says: it is over at the first line that says
how it went, and is no success without one. What a server reports is what is taken, and a
connection that is cut anywhere before the last line of it is an error. -/
theorem markers_followed {reading : Reading} (ascii : reading.Ascii) (url : XRootDURL) :
    (∀ left, (∀ before line after text, linesOf left = before ++ line :: after →
        (∀ line ∈ before, Plain reading line) → lineOf reading line = .outcome text →
          follow reading url {} left =
            ((match outcome reading url text with
              | some raised => .error raised
              | none => .ok (Latest.total (heard ∅ (before.map (lineOf reading))))),
              running (heard ∅ (before.map (lineOf reading))))) ∧
      ((∀ line ∈ linesOf left, Plain reading line) → follow reading url {} left =
        (.error (closed url), running (heard ∅ ((linesOf left).map (lineOf reading)))))) ∧
    ∀ markers, (∀ marker ∈ markers, Marker.Short marker) →
      (∀ rest, follow reading url {} (rendered markers ++ Text.encodeUtf8 (str "success: Created") ++
          [0x0A] ++ rest) =
        (.ok (Latest.total (markers.map fun marker => (marker.index, marker.transferred))),
          running (markers.map fun marker => (marker.index, marker.transferred)))) ∧
      ∀ cut, (follow reading url {} ((rendered markers).take cut)).1 = .error (closed url) := by
  have stops : ∀ left before line after text, linesOf left = before ++ line :: after →
      (∀ line ∈ before, Plain reading line) → lineOf reading line = .outcome text →
        follow reading url {} left =
          ((match outcome reading url text with
            | some raised => .error raised
            | none => .ok (Latest.total (heard ∅ (before.map (lineOf reading))))),
            running (heard ∅ (before.map (lineOf reading)))) := by
    intro left before line after text parted plain said
    obtain ⟨stripes, told⟩ := taken {} (before.map (lineOf reading))
    rw [follow_stops parted plain said, stripes, told, running_from_empty, Latest.sum_update]
    rfl
  refine ⟨fun left => ⟨stops left, fun plain => ?_⟩, fun markers short => ⟨fun rest => ?_, fun cut => ?_⟩⟩
  · obtain ⟨-, told⟩ := taken {} ((linesOf left).map (lineOf reading))
    rw [follow_ends plain, told, running_from_empty]
    rfl
  · have single : Single (str "success: Created") :=
      ⟨by decide, by decide, known_of 's' (by decide) (by decide),
        known_of 'd' (by decide) (by decide), by decide⟩
    have said : lineOf reading (Text.encodeUtf8 (str "success: Created") ++ [0x0A]) =
        .outcome (str "success: Created") := by
      rw [lineOf, line_text single]
      dsimp only
      rw [if_neg (by decide), ascii _ single.ascii]
      exact if_pos (by decide)
    have fine : outcome reading url (str "success: Created") = none := by
      rw [outcome, ascii _ single.ascii]
      exact if_pos (by decide)
    have known : ∀ line ∈ markers.flatMap Marker.lines ++ [str "success: Created"], Single line := by
      intro line member
      rcases List.mem_append.mp member with inside | last
      · obtain ⟨marker, within, here⟩ := List.mem_flatMap.mp inside
        exact (marker_lines (short marker within) line here).1
      · rw [List.mem_singleton.mp last]
        exact single
    have shape : rendered markers ++ Text.encodeUtf8 (str "success: Created") ++ [0x0A] ++ rest =
        wire (markers.flatMap Marker.lines ++ [str "success: Created"]) ++ rest := by
      rw [wire, List.flatMap_append, List.flatMap_singleton, ← List.append_assoc]
      rfl
    have parted := lines_wire known rest
    rw [List.map_append, List.map_singleton, List.append_assoc, List.singleton_append] at parted
    have quiet : ∀ line ∈ (markers.flatMap Marker.lines).map
        (fun line => Text.encodeUtf8 line ++ [0x0A]), Plain reading line := by
      intro line member
      obtain ⟨text, inside, rfl⟩ := List.mem_map.mp member
      obtain ⟨marker, within, here⟩ := List.mem_flatMap.mp inside
      obtain ⟨alone, mute⟩ := marker_lines (short marker within) text here
      exact plain_begun ascii alone mute List.prefix_rfl
    rw [shape, stops _ _ _ _ _ parted quiet said, fine, List.map_map]
    have reported := markers_heard ascii short ∅
    rw [← Function.comp_def] at reported
    rw [reported]
  · have known : ∀ line ∈ markers.flatMap Marker.lines, Single line ∧ Quiet line := by
      intro line member
      obtain ⟨marker, inside, here⟩ := List.mem_flatMap.mp member
      exact marker_lines (short marker inside) line here
    rw [rendered, follow_ends (cut_plain ascii known cut)]

def asciiReading : Reading := ⟨asciiOnly, Char.isAlphanum⟩

def copiedFrom : XRootDURL where
  scheme := str "https"
  host := str "a"

def twoStripes : List Marker := [⟨0, 100, 2, 1⟩, ⟨1, 50, 2, 1⟩, ⟨0, 400, 2, 2⟩]

theorem two_stripes_followed :
    follow asciiReading copiedFrom {} (rendered twoStripes ++
      Text.encodeUtf8 (str "success: Created") ++ [0x0A]) = (.ok 450, [100, 150, 450]) ∧
    (follow asciiReading copiedFrom {} ((rendered twoStripes).take 40)).1 =
      .error (closed copiedFrom) := by
  have ascii : asciiReading.Ascii := fun text _ => rfl
  have short : ∀ marker ∈ twoStripes, Marker.Short marker := by
    unfold Marker.Short
    decide
  obtain ⟨whole, cut⟩ := (markers_followed ascii copiedFrom).2 twoStripes short
  refine ⟨?_, cut 40⟩
  have read := whole []
  rw [List.append_nil] at read
  rw [read]
  decide

end XRootDClient.Http.Markers

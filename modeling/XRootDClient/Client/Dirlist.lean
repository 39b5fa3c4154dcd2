import XRootDClient.Client.Listing
import XRootDClient.Lib.Decimal
import XRootDClient.Lib.Percent

/-!
# Listings as a server writes them

The three bodies of a `kXR_dirlist` answer: names alone, names with a line of their stat,
and the same with a token for the checksum at the end of each line. The body with stats
begins with an entry for the directory itself, which no name can be taken for.
-/

set_option autoImplicit false

namespace XRootDClient.Client

open Lib Lib.BigEndian Lib.Posix

/-- A name a listing can hold: one component, on one line. -/
structure Listable (name : Text) : Prop where
  proper : Proper name
  line : '\n' ∉ name
  bare : Char.ofNat 0 ∉ name

structure Word (text : Text) : Prop where
  some : text ≠ []
  solid : ∀ char ∈ text, Text.isSpace char = false
  bare : Char.ofNat 0 ∉ text

theorem solid_text {text : Text} (all : (text.all fun char => !Text.isSpace char) = true) :
    ∀ char ∈ text, Text.isSpace char = false := by
  intro char member
  have solid := List.all_eq_true.mp all char member
  rwa [Bool.not_eq_true'] at solid

structure StatRecord where
  id : Text
  size : Int
  flags : Nat
  mtime : Int
  word : Word id

/-- `_stat_line`. -/
def StatRecord.line (record : StatRecord) : Text :=
  record.id ++ ' ' :: (Text.ofInt record.size ++ ' ' :: (Text.ofNat record.flags ++
    ' ' :: Text.ofInt record.mtime))

/-- A name of a directory, with its stat and its digest if it has one. -/
structure Listed where
  name : Text
  record : StatRecord
  digest : Option Text

/-- What stands behind the stat where an algorithm was asked for. -/
def Listed.token (algorithm : Text) (listed : Listed) : Text :=
  if algorithm = [] then []
  else str " [ " ++ algorithm ++ ':' :: (listed.digest.getD (str "none") ++ str " ]")

def plainBody (names : List Text) : Bytes := Text.encodeUtf8 (Text.join ['\n'] names) ++ [0]

/-- `_h_dirlist` with `kXR_dstat`; the algorithm is empty where no digest is asked for. -/
def statBody (algorithm : Text) (own : StatRecord) (entries : List Listed) : Bytes :=
  Text.encodeUtf8 (str ".\n" ++ own.line ++ ['\n'] ++ entries.flatMap fun listed =>
    listed.name ++ '\n' :: (listed.record.line ++ listed.token algorithm ++ ['\n'])) ++ [0]

/-- An algorithm that can be named in a token. -/
structure Nameable (algorithm : Text) : Prop where
  word : Word algorithm
  colon : ':' ∉ algorithm
  left : '[' ∉ algorithm
  right : ']' ∉ algorithm

/-- A digest that can be told in a token, and is not what stands for none. -/
structure Tellable (digest : Text) : Prop where
  word : Word digest
  left : '[' ∉ digest
  right : ']' ∉ digest
  digest : digest ≠ str "none"

/-- The names of a listing and their digests can be written. -/
structure Writable (entries : List Listed) : Prop where
  names : ∀ listed ∈ entries, Listable listed.name
  digests : ∀ listed ∈ entries, ∀ digest ∈ listed.digest, Tellable digest

def decimal (repr lower : Text → Text) : Builtins where
  int := Decimal.int
  repr := repr
  lower := lower

def Listed.entry (lower : Text → Text) (path algorithm : Text) (listed : Listed) : DirEntry where
  name := listed.name
  parent := path
  stat := some {
    id := listed.record.id
    size := listed.record.size
    flags := listed.record.flags
    mtime := listed.record.mtime
    path := if path = [] then listed.name else rstrip path ++ slash :: listed.name }
  checksum := if algorithm = [] then none else listed.digest.map fun value => ⟨lower algorithm, value⟩

theorem head_text_of {text : Text} (bare : Char.ofNat 0 ∉ text) :
    Proto.headText (Text.encodeUtf8 text ++ [0]) = text := by
  rw [Proto.headText, Text.encode_until_nul bare, Text.decode_encode]

/-- Every line with the end of it is the lines with the ends between them, one empty line
behind. -/
theorem ended_lines (lines : List Text) :
    lines.flatMap (· ++ ['\n']) = ['\n'].intercalate (lines ++ [[]]) := by
  induction lines with
  | nil => rfl
  | cons line rest induction =>
      rw [List.flatMap_cons, induction]
      cases rest with
      | nil => simp [List.intercalate]
      | cons next others => simp [List.intercalate]

theorem split_lines {lines : List Text} (some : lines ≠ []) (single : ∀ line ∈ lines, '\n' ∉ line) :
    (['\n'].intercalate lines).splitOn '\n' = lines := by
  apply List.splitOn_intercalate
  · exact single
  · exact some

theorem mem_joined {lines : List Text} {char : Char} (member : char ∈ ['\n'].intercalate lines) :
    char = '\n' ∨ ∃ line ∈ lines, char ∈ line := by
  induction lines with
  | nil => exact absurd member List.not_mem_nil
  | cons line rest induction =>
      by_cases last : rest = []
      · rw [last, List.intercalate_singleton] at member
        exact .inr ⟨line, List.mem_cons_self, member⟩
      · rw [List.intercalate_cons_of_ne_nil last, List.append_assoc] at member
        rcases List.mem_append.mp member with here | behind
        · exact .inr ⟨line, List.mem_cons_self, here⟩
        · rcases List.mem_cons.mp behind with mark | later
          · exact .inl mark
          · rcases induction later with mark | ⟨other, listed, inside⟩
            · exact .inl mark
            · exact .inr ⟨other, List.mem_cons_of_mem line listed, inside⟩

theorem filter_some {lines : List Text} (some : ∀ line ∈ lines, line ≠ []) :
    lines.filter (· ≠ []) = lines :=
  List.filter_eq_self.mpr fun line member => decide_eq_true (some line member)

theorem listed_plain {names : List Text} (listable : ∀ name ∈ names, Listable name) :
    listed (plainBody names) = names := by
  have bare : Char.ofNat 0 ∉ ['\n'].intercalate names := by
    intro member
    rcases mem_joined member with mark | ⟨name, listed, inside⟩
    · exact absurd mark (by decide)
    · exact (listable name listed).bare inside
  rw [listed, plainBody, Percent.join_intercalate, head_text_of bare]
  by_cases none : names = []
  · rw [none]
    rfl
  · rw [split_lines none fun name member => (listable name member).line]
    exact filter_some fun name member => (listable name member).proper.some

theorem listed_ended {lines : List Text} (some : ∀ line ∈ lines, line ≠ [])
    (single : ∀ line ∈ lines, '\n' ∉ line) (bare : ∀ line ∈ lines, Char.ofNat 0 ∉ line) :
    listed (Text.encodeUtf8 (lines.flatMap (· ++ ['\n'])) ++ [0]) = lines := by
  have clean : Char.ofNat 0 ∉ lines.flatMap (· ++ ['\n']) := by
    intro member
    obtain ⟨line, inside, here⟩ := List.mem_flatMap.mp member
    rcases List.mem_append.mp here with early | mark
    · exact bare line inside early
    · exact absurd mark (by decide)
  rw [listed, head_text_of clean, ended_lines, split_lines (by simp)]
  · rw [List.filter_append, filter_some some]
    simp
  · intro line member
    rcases List.mem_append.mp member with early | last
    · exact single line early
    · rw [List.mem_singleton.mp last]
      exact List.not_mem_nil

section Words

variable {text rest : Text}

theorem Word.line (word : Word text) : '\n' ∉ text := by
  intro member
  exact absurd (word.solid '\n' member) (by decide)

theorem word_of_int (value : Int) : Word (Text.ofInt value) where
  some := Decimal.of_int_some value
  solid := Decimal.of_int_bare value
  bare := by
    intro member
    rcases Decimal.mem_of_int member with sign | ⟨figure, bound, same⟩
    · exact absurd sign (by decide)
    · exact (Decimal.digit_char_not figure bound).2.2.2.2.1 same.symm

structure Inline (text : Text) : Prop where
  line : '\n' ∉ text
  bare : Char.ofNat 0 ∉ text

theorem Word.inline (word : Word text) : Inline text := ⟨word.line, word.bare⟩

theorem Inline.append (first : Inline text) (second : Inline rest) : Inline (text ++ rest) where
  line := by
    intro member
    exact (List.mem_append.mp member).elim first.line second.line
  bare := by
    intro member
    exact (List.mem_append.mp member).elim first.bare second.bare

theorem Inline.cons {char : Char} (line : '\n' ≠ char) (bare : Char.ofNat 0 ≠ char)
    (second : Inline rest) : Inline (char :: rest) where
  line := by
    intro member
    exact (List.mem_cons.mp member).elim line second.line
  bare := by
    intro member
    exact (List.mem_cons.mp member).elim bare second.bare

def words (text : Text) : List Text := (text.splitOnP Text.isSpace).filter (· ≠ [])

theorem words_cons (word : Word text) : words (text ++ ' ' :: rest) = text :: words rest := by
  rw [words, List.splitOnP_append_cons_of_forall_mem word.solid ' ' rfl,
    List.filter_cons_of_pos (by simpa using word.some)]
  rfl

theorem words_last (word : Word text) : words text = [text] := by
  rw [words, List.splitOnP_eq_singleton word.solid,
    List.filter_cons_of_pos (by simpa using word.some)]
  rfl

end Words

variable {repr lower : Text → Text}

theorem number_of_int (value : Int) : number (decimal repr lower) (Text.ofInt value) = .ok value := by
  simp only [number, decimal, Decimal.int_of_int]

theorem stat_fields_words {line path : Text} (record : StatRecord)
    (read : words line = [record.id, Text.ofInt record.size, Text.ofInt record.flags,
      Text.ofInt record.mtime]) :
    statFields (decimal repr lower) line path = .ok {
      id := record.id, size := record.size, flags := record.flags, mtime := record.mtime,
      path := path } := by
  unfold words at read
  rw [statFields, read]
  simp only [number_of_int]
  rfl

theorem record_words (record : StatRecord) : words record.line = [record.id,
    Text.ofInt record.size, Text.ofInt record.flags, Text.ofInt record.mtime] := by
  have flags : Text.ofNat record.flags = Text.ofInt record.flags := rfl
  rw [StatRecord.line, words_cons record.word, words_cons (word_of_int _), flags,
    words_cons (word_of_int _), words_last (word_of_int _)]

theorem record_words_blank (record : StatRecord) : words (record.line ++ [' ']) = [record.id,
    Text.ofInt record.size, Text.ofInt record.flags, Text.ofInt record.mtime] := by
  have flags : Text.ofNat record.flags = Text.ofInt record.flags := rfl
  have shape : record.line ++ [' '] = record.id ++ ' ' :: (Text.ofInt record.size ++
      ' ' :: (Text.ofInt record.flags ++ ' ' :: (Text.ofInt record.mtime ++ [' ']))) := by
    rw [StatRecord.line, flags]
    simp only [List.append_assoc, List.cons_append]
  rw [shape, words_cons record.word, words_cons (word_of_int _), words_cons (word_of_int _),
    words_cons (word_of_int _)]
  rfl

theorem of_nat_ends (value : Nat) :
    ∃ front figure, figure < 10 ∧ Text.ofNat value = front ++ [Nat.digitChar figure] := by
  rw [Decimal.of_nat_step]
  split
  · next small => exact ⟨[], value, small, rfl⟩
  · exact ⟨Text.ofNat (value / 10), value % 10, Nat.mod_lt _ (by decide), rfl⟩

theorem record_ends (record : StatRecord) :
    ∃ front figure, figure < 10 ∧ record.line = front ++ [Nat.digitChar figure] := by
  obtain ⟨front, figure, small, ends⟩ : ∃ front figure, figure < 10 ∧
      Text.ofInt record.mtime = front ++ [Nat.digitChar figure] := by
    cases record.mtime with
    | ofNat value => exact of_nat_ends value
    | negSucc value =>
        obtain ⟨front, figure, small, ends⟩ := of_nat_ends (value + 1)
        exact ⟨'-' :: front, figure, small, by rw [Text.ofInt, ends]; rfl⟩
  refine ⟨record.id ++ ' ' :: (Text.ofInt record.size ++ ' ' :: (Text.ofNat record.flags ++
    ' ' :: front)), figure, small, ?_⟩
  rw [StatRecord.line, ends]
  simp only [List.append_assoc, List.cons_append]

theorem rstrip_space_last {text : Text} {char : Char} (solid : Text.isSpace char = false) :
    rstripSpace (text ++ [char]) = text ++ [char] := by
  rw [rstripSpace, List.reverse_append, List.reverse_singleton, List.singleton_append,
    List.dropWhile_cons_of_neg (by rw [solid]; decide), List.reverse_cons, List.reverse_reverse]

theorem cksum_token_plain (python : Builtins) (record : StatRecord) :
    cksumToken python record.line = (record.line, none) := by
  obtain ⟨front, figure, small, ends⟩ := record_ends record
  obtain ⟨-, -, -, solid, -, left, right⟩ := Decimal.digit_char_not figure small
  have behind : ((front ++ [Nat.digitChar figure]).reverse.takeWhile (· ≠ '[')).reverse =
      (front.reverse.takeWhile (· ≠ '[')).reverse ++ [Nat.digitChar figure] := by
    rw [List.reverse_append, List.reverse_singleton, List.singleton_append,
      List.takeWhile_cons_of_pos (by simp [left]), List.reverse_cons]
  unfold cksumToken
  dsimp only
  rw [ends, behind, rstrip_space_last solid, List.getLast?_concat]
  apply if_pos
  right
  intro same
  exact right (Option.some.inj same)

theorem strip_blanks {text : Text} (some : text ≠ [])
    (solid : ∀ char ∈ text, Text.isSpace char = false) :
    Text.strip (' ' :: (text ++ [' '])) = text := by
  have first : (text ++ [' ']).dropWhile Text.isSpace = text ++ [' '] := by
    cases text with
    | nil => exact absurd rfl some
    | cons char rest =>
        apply List.dropWhile_cons_of_neg
        rw [solid char List.mem_cons_self]
        decide
  have back : ∀ char ∈ text.reverse, Text.isSpace char = false := fun char member =>
    solid char (List.mem_reverse.mp member)
  rw [Text.strip, List.dropWhile_cons_of_pos (by decide), first, List.reverse_append,
    List.reverse_singleton, List.singleton_append, List.dropWhile_cons_of_pos (by decide),
    Decimal.drop_space_self back, List.reverse_reverse]

theorem cksum_token_read (python : Builtins) {algorithm value : Text} (stat : Text)
    (known : Nameable algorithm) (word : Word value) (left : '[' ∉ value) :
    cksumToken python (stat ++ (str " [ " ++ algorithm ++ ':' :: (value ++ str " ]"))) =
      (stat ++ [' '], if value = [] ∨ value = str "none" then none
        else some ⟨python.lower algorithm, value⟩) := by
  have shape : stat ++ (str " [ " ++ algorithm ++ ':' :: (value ++ str " ]")) =
      (stat ++ [' ']) ++ '[' :: (' ' :: (algorithm ++ ':' :: (value ++ [' '])) ++ [']']) := by
    simp [str]
  have inside : ∀ char ∈ (' ' :: (algorithm ++ ':' :: (value ++ [' '])) ++ [']']).reverse,
      decide (char ≠ '[') = true := by
    intro char member
    apply decide_eq_true
    rintro rfl
    simp only [List.mem_reverse, List.mem_append, List.mem_cons, List.not_mem_nil, or_false] at member
    rcases member with (blank | early | colon | later | blank) | close
    · exact absurd blank (by decide)
    · exact known.left early
    · exact absurd colon (by decide)
    · exact left later
    · exact absurd blank (by decide)
    · exact absurd close (by decide)
  have behind : (((stat ++ [' ']) ++ '[' ::
      (' ' :: (algorithm ++ ':' :: (value ++ [' '])) ++ [']'])).reverse.takeWhile (· ≠ '[')).reverse =
      ' ' :: (algorithm ++ ':' :: (value ++ [' '])) ++ [']'] := by
    rw [List.reverse_append, List.reverse_cons, List.append_assoc, List.takeWhile_append_of_pos inside]
    simp
  have open_ : ¬('[' ∉ (stat ++ [' ']) ++ '[' ::
      (' ' :: (algorithm ++ ':' :: (value ++ [' '])) ++ [']']) ∨
      (' ' :: (algorithm ++ ':' :: (value ++ [' '])) ++ [']']).getLast? ≠ some ']') := by
    rw [List.getLast?_concat]
    simp
  have inner : Text.strip ((' ' :: (algorithm ++ ':' :: (value ++ [' '])) ++
      [']']).reverse.dropWhile (· = ']')).reverse = algorithm ++ ':' :: value := by
    have closed : ((' ' :: (algorithm ++ ':' :: (value ++ [' '])) ++
        [']']).reverse.dropWhile (· = ']')).reverse = ' ' :: ((algorithm ++ ':' :: value) ++ [' ']) := by
      simp
    rw [closed]
    apply strip_blanks (by simp)
    intro char member
    rcases List.mem_append.mp member with early | later
    · exact known.word.solid char early
    · rcases List.mem_cons.mp later with rfl | later
      · decide
      · exact word.solid char later
  have cut : Text.partition ':' (algorithm ++ ':' :: value) = (algorithm, true, value) := by
    rw [Text.partition_append known.colon, Text.partition_self, List.append_nil]
  unfold cksumToken
  dsimp only
  rw [shape, behind, rstrip_space_last (by decide), if_neg open_, inner, cut]
  have named : ¬(!true || algorithm.isEmpty) = true := by
    simpa using known.word.some
  have front : ∀ head tail : Text, (head ++ '[' :: tail).take
      ((head ++ '[' :: tail).length - tail.length - 1) = head := by
    intro head tail
    apply List.take_left'
    rw [List.length_append, List.length_cons]
    omega
  dsimp only
  rw [if_neg named, front]

def Listed.line (algorithm : Text) (listed : Listed) : Text :=
  listed.record.line ++ listed.token algorithm

def statLines (algorithm : Text) (own : StatRecord) (entries : List Listed) : List Text :=
  dot :: own.line :: entries.flatMap fun listed => [listed.name, listed.line algorithm]

theorem stat_body_lines (algorithm : Text) (own : StatRecord) (entries : List Listed) :
    statBody algorithm own entries =
      Text.encodeUtf8 ((statLines algorithm own entries).flatMap (· ++ ['\n'])) ++ [0] := by
  have each : ∀ entries : List Listed, (entries.flatMap fun listed =>
      listed.name ++ '\n' :: (listed.record.line ++ listed.token algorithm ++ ['\n'])) =
      (entries.flatMap fun listed => [listed.name, listed.line algorithm]).flatMap
        (· ++ ['\n']) := by
    intro entries
    induction entries with
    | nil => rfl
    | cons listed rest induction =>
        rw [List.flatMap_cons, List.flatMap_cons, List.flatMap_append, induction]
        simp [Listed.line]
  rw [statBody, each, statLines]
  simp [str, dot]

theorem record_inline (record : StatRecord) : Inline record.line := by
  apply record.word.inline.append
  apply Inline.cons (by decide) (by decide)
  apply (word_of_int record.size).inline.append
  apply Inline.cons (by decide) (by decide)
  apply (word_of_int record.flags).inline.append
  exact Inline.cons (by decide) (by decide) (word_of_int record.mtime).inline

/-- An algorithm that was not asked for, or one that can be named. -/
def Askable (algorithm : Text) : Prop := algorithm = [] ∨ Nameable algorithm

variable {algorithm path : Text} {entries : List Listed}

theorem told_word {digest : Option Text} (tellable : ∀ value ∈ digest, Tellable value) :
    Word (digest.getD (str "none")) ∧ '[' ∉ digest.getD (str "none") := by
  cases digest with
  | none => exact ⟨⟨by decide, solid_text (by decide), by decide⟩, by decide⟩
  | some value =>
      have told := tellable value rfl
      exact ⟨told.word, told.left⟩

theorem token_inline (asked : Askable algorithm) {listed : Listed}
    (tellable : ∀ value ∈ listed.digest, Tellable value) : Inline (listed.token algorithm) := by
  unfold Listed.token
  split
  · exact ⟨List.not_mem_nil, List.not_mem_nil⟩
  · next named =>
      have known := asked.resolve_left named
      have front : Inline (str " [ ") := ⟨by decide, by decide⟩
      have back : Inline (str " ]") := ⟨by decide, by decide⟩
      apply (front.append known.word.inline).append
      apply Inline.cons (by decide) (by decide)
      exact (told_word tellable).1.inline.append back

theorem listed_stat (own : StatRecord) (asked : Askable algorithm) (writable : Writable entries) :
    listed (statBody algorithm own entries) = statLines algorithm own entries := by
  have record : ∀ record : StatRecord, record.line ≠ [] := fun record => by
    simp [StatRecord.line]
  have each : ∀ line ∈ statLines algorithm own entries, line ≠ [] ∧ Inline line := by
    intro line member
    rcases List.mem_cons.mp member with rfl | member
    · exact ⟨by decide, by decide, by decide⟩
    rcases List.mem_cons.mp member with rfl | member
    · exact ⟨record own, record_inline own⟩
    obtain ⟨listed, inside, here⟩ := List.mem_flatMap.mp member
    have listable := writable.names listed inside
    rcases List.mem_cons.mp here with rfl | here
    · exact ⟨listable.proper.some, listable.line, listable.bare⟩
    rw [List.mem_singleton.mp here]
    constructor
    · intro none
      exact record listed.record (List.append_eq_nil_iff.mp none).1
    · exact (record_inline listed.record).append
        (token_inline asked (writable.digests listed inside))
  rw [stat_body_lines]
  apply listed_ended
  · exact fun line member => (each line member).1
  · exact fun line member => (each line member).2.line
  · exact fun line member => (each line member).2.bare

theorem checked_proper (python : Builtins) {name : Text} (proper : Proper name) :
    checked python name path = .ok name := by
  rw [checked, if_neg]
  rw [not_or]
  exact ⟨proper.single, proper.notDots⟩

theorem named_entries (python : Builtins) {names : List Text}
    (proper : ∀ name ∈ names, Proper name) :
    named python path names =
      .ok (names.map fun name => ({ name := name, parent := path } : DirEntry)) := by
  induction names with
  | nil => rfl
  | cons name rest induction =>
      rw [List.forall_mem_cons] at proper
      rw [named, checked_proper python proper.1, induction proper.2]
      rfl

theorem line_read (repr lower : Text → Text) (path name : Text) (asked : Askable algorithm)
    {listed : Listed} (tellable : ∀ value ∈ listed.digest, Tellable value) :
    ∃ statline, cksumToken (decimal repr lower) (listed.line algorithm) =
        (statline, (listed.entry lower path algorithm).checksum) ∧
      statFields (decimal repr lower) statline name = .ok {
        id := listed.record.id, size := listed.record.size, flags := listed.record.flags,
        mtime := listed.record.mtime, path := name } := by
  by_cases none : algorithm = []
  · refine ⟨listed.record.line, ?_, stat_fields_words _ (record_words _)⟩
    rw [Listed.line, Listed.token, if_pos none, List.append_nil, cksum_token_plain, Listed.entry]
    simp [none]
  · have known := asked.resolve_left none
    obtain ⟨word, left⟩ := told_word tellable
    refine ⟨listed.record.line ++ [' '], ?_, stat_fields_words _ (record_words_blank _)⟩
    rw [Listed.line, Listed.token, if_neg none, cksum_token_read _ _ known word left, Listed.entry]
    congr 1
    dsimp only
    rw [if_neg none]
    cases digest : listed.digest with
    | none => rfl
    | some value =>
        have told := tellable value digest
        rw [Option.getD_some, if_neg (not_or.mpr ⟨told.word.some, told.digest⟩)]
        rfl

theorem described_entries (asked : Askable algorithm) (writable : Writable entries) :
    described (decimal repr lower) path
        (pairs (entries.flatMap fun listed => [listed.name, listed.line algorithm])) =
      .ok (entries.map (Listed.entry lower path algorithm)) := by
  induction entries with
  | nil => rfl
  | cons listed rest induction =>
      have proper := (writable.names listed List.mem_cons_self).proper
      have others : Writable rest := by
        constructor
        · exact fun other member => writable.names other (List.mem_cons_of_mem listed member)
        · exact fun other member => writable.digests other (List.mem_cons_of_mem listed member)
      obtain ⟨statline, token, stat⟩ := line_read repr lower path
        (if path = [] then listed.name else rstrip path ++ slash :: listed.name) asked
        (writable.digests listed List.mem_cons_self)
      rw [List.flatMap_cons, List.cons_append, List.singleton_append, pairs, described,
        if_neg proper.notDot, checked_proper _ proper]
      simp only [bind, Except.bind, token, stat, induction others]
      rfl

theorem parse_plain_body (python : Builtins) (path : Text) {names : List Text}
    (listable : ∀ name ∈ names, Listable name) (withStat : Bool) :
    parseDirlist python (plainBody names) path withStat =
      .ok (names.map fun name => ({ name := name, parent := path } : DirEntry)) := by
  have reads : plain names withStat = true := by
    have first : names.head? ≠ some dot := by
      intro self
      exact (listable dot (List.mem_of_mem_head? self)).proper.notDot rfl
    simp [plain, first]
  rw [parseDirlist, listed_plain listable, if_pos reads]
  exact named_entries python fun name member => (listable name member).proper

theorem parse_stat_body (repr lower : Text → Text) (path : Text) (own : StatRecord)
    (asked : Askable algorithm) (writable : Writable entries) :
    parseDirlist (decimal repr lower) (statBody algorithm own entries) path true =
      .ok (entries.map (Listed.entry lower path algorithm)) := by
  have reads : ¬plain (statLines algorithm own entries) true = true := by
    simp [plain, statLines]
  rw [parseDirlist, listed_stat own asked writable, if_neg reads, statLines, pairs, described, if_pos rfl]
  exact described_entries asked writable

/-- What a server lists is read back: names alone whatever was asked for, and names with
their stats and their digests, the name of the algorithm in lower case. -/
theorem dirlist_bodies_read (repr lower : Text → Text) (path : Text) :
    (∀ names, (∀ name ∈ names, Listable name) → ∀ withStat,
      parseDirlist (decimal repr lower) (plainBody names) path withStat =
        .ok (names.map fun name => ({ name := name, parent := path } : DirEntry))) ∧
    ∀ algorithm own entries, Askable algorithm → Writable entries →
      parseDirlist (decimal repr lower) (statBody algorithm own entries) path true =
        .ok (entries.map (Listed.entry lower path algorithm)) := by
  constructor
  · intro names listable withStat
    exact parse_plain_body _ path listable withStat
  · intro algorithm own entries asked writable
    exact parse_stat_body repr lower path own asked writable

def fiveBytes : StatRecord where
  id := ['7']
  size := 5
  flags := 48
  mtime := 1700000000
  word := ⟨by decide, solid_text (by decide), by decide⟩

/-- Asked for by a name in capitals, a digest is told by that name and read under another. -/
theorem capitals_lowered :
    parseDirlist (decimal id (List.map Char.toLower))
        (statBody (str "ADLER32") fiveBytes [⟨['f'], fiveBytes, some (str "0a")⟩]) [] true =
      .ok [Listed.entry id [] (str "adler32") ⟨['f'], fiveBytes, some (str "0a")⟩] ∧
    parseDirlist (decimal id (List.map Char.toLower))
        (statBody (str "ADLER32") fiveBytes [⟨['f'], fiveBytes, some (str "0a")⟩]) [] true ≠
      .ok [Listed.entry id [] (str "ADLER32") ⟨['f'], fiveBytes, some (str "0a")⟩] := by
  have asked : Askable (str "ADLER32") :=
    .inr ⟨⟨by decide, solid_text (by decide), by decide⟩, by decide, by decide, by decide⟩
  have writable : Writable [⟨['f'], fiveBytes, some (str "0a")⟩] := by
    constructor
    · intro listed member
      rw [List.mem_singleton.mp member]
      exact ⟨by decide, by decide, by decide⟩
    · intro listed member digest told
      rw [List.mem_singleton.mp member] at told
      rw [← Option.some.inj told]
      exact ⟨⟨by decide, solid_text (by decide), by decide⟩, by decide, by decide, by decide⟩
  have read := parse_stat_body id (List.map Char.toLower) [] fiveBytes asked writable
  rw [read]
  constructor
  · rfl
  · intro same
    have checksums := congrArg (List.map DirEntry.checksum) (Except.ok.inj same)
    revert checksums
    decide

end XRootDClient.Client

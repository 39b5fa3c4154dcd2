import XRootDClient.Client.Straddle

/-!
# Bracket groups in globs

What is between brackets goes into the regular expression almost as it stands, so that the
wildcards of a pattern stay in their components only if its groups do. A group that holds
a slash is cut by no component; a group that is not negated must not cover the slash, and
a negated one must; and no group may be left open. Only a pattern with a set that admits
no character at all keeps the rule otherwise, since it matches nothing.
-/

set_option autoImplicit false

namespace XRootDClient.Glob.Brackets

open Lib Lib.Posix

theorem count_components {parts : List Text} (full : parts ≠ []) :
    (['/'].intercalate parts).count '/' + 1 = (parts.map (·.count '/')).sum + parts.length := by
  induction parts with
  | nil => exact absurd rfl full
  | cons part rest induction =>
      by_cases last : rest = []
      · rw [last]
        simp
      · have later := induction last
        rw [List.intercalate_cons_of_ne_nil last, List.count_append, List.count_append,
          List.map_cons, List.sum_cons, List.length_cons]
        simp only [List.count_singleton_self]
        omega

theorem sum_bare (parts : List Text) :
    (parts.map (·.count '/')).sum = 0 ↔ ∀ part ∈ parts, '/' ∉ part := by
  induction parts with
  | nil => simp
  | cons part rest induction =>
      rw [List.map_cons, List.sum_cons, Nat.add_eq_zero_iff, induction, List.count_eq_zero,
        List.forall_mem_cons]

theorem count_split (text : Text) : text.count '/' + 1 = (text.splitOn '/').length := by
  have whole : ['/'].intercalate (text.splitOn '/') = text := List.intercalate_splitOn '/'
  have none := (sum_bare (text.splitOn '/')).mpr (split_single text)
  have counted := count_components (List.splitOn_ne_nil '/' text)
  rw [whole, none, Nat.zero_add] at counted
  exact counted

section Pieces

variable {list : List Piece} {text : Text}

def matched (list : List Piece) : Language Char := (Regex.concat (list.map Piece.regex)).language

theorem mem_matched_cons {piece : Piece} :
    text ∈ matched (piece :: list) ↔
      ∃ left ∈ piece.regex.language, ∃ right ∈ matched list, left ++ right = text :=
  Regex.mem_concat_cons

theorem once_language {piece : Piece} (once : piece.repeated = false) {char : Char} :
    [char] ∈ piece.regex.language ↔ piece.set.contains char = true := by
  rw [Piece.regex, once, if_neg Bool.false_ne_true, Regex.mem_among]
  constructor
  · rintro ⟨other, known, same⟩
    cases same
    exact known
  · exact fun known => ⟨char, known, rfl⟩

theorem repeated_language {piece : Piece} (repeated : piece.repeated = true) {char : Char}
    (known : piece.set.contains char = true) : [char] ∈ piece.regex.language := by
  rw [Piece.regex, repeated, if_pos rfl]
  exact Language.mem_kstar.mpr ⟨[[char]], rfl, List.forall_mem_singleton.mpr ⟨char, known, rfl⟩⟩

theorem nothing_language {piece : Piece} (repeated : piece.repeated = true) :
    [] ∈ piece.regex.language := by
  rw [Piece.regex, repeated, if_pos rfl]
  exact Language.nil_mem_kstar _

theorem once_cases {piece : Piece} (once : piece.repeated = false) (member : text ∈ piece.regex.language) :
    ∃ char, piece.set.contains char = true ∧ text = [char] := by
  rw [Piece.regex, once, if_neg Bool.false_ne_true] at member
  exact member

theorem weight_le (member : text ∈ matched list) : (list.map weight).sum ≤ text.length := by
  induction list generalizing text with
  | nil => exact Nat.zero_le _
  | cons piece list induction =>
      obtain ⟨left, here, right, later, rfl⟩ := mem_matched_cons.mp member
      rw [List.map_cons, List.sum_cons, List.length_append]
      apply Nat.add_le_add _ (induction later)
      rw [weight]
      cases repeated : piece.repeated with
      | true => exact Nat.zero_le _
      | false =>
          obtain ⟨char, -, rfl⟩ := once_cases repeated here
          exact Nat.le_refl 1

def Open (list : List Piece) : Prop :=
  ∀ piece ∈ list, piece.repeated = false → ∃ char, piece.set.contains char = true

theorem open_matches (opened : Open list) : ∃ text, text ∈ matched list := by
  induction list with
  | nil => exact ⟨[], rfl⟩
  | cons piece list induction =>
      rw [Open, List.forall_mem_cons] at opened
      obtain ⟨right, later⟩ := induction opened.2
      cases repeated : piece.repeated with
      | true => exact ⟨right, mem_matched_cons.mpr ⟨[], nothing_language repeated, right, later, rfl⟩⟩
      | false =>
          obtain ⟨char, known⟩ := opened.1 repeated
          exact ⟨char :: right, mem_matched_cons.mpr
            ⟨[char], (once_language repeated).mpr known, right, later, rfl⟩⟩

theorem matches_open (member : text ∈ matched list) : Open list := by
  induction list generalizing text with
  | nil => exact nofun
  | cons piece list induction =>
      obtain ⟨left, here, right, later, -⟩ := mem_matched_cons.mp member
      refine List.forall_mem_cons.mpr ⟨fun once => ?_, induction later⟩
      obtain ⟨char, known, -⟩ := once_cases once here
      exact ⟨char, known⟩

theorem shortest (opened : Open list) (steady : ∀ piece ∈ list, Steady piece) :
    ∃ text ∈ matched list, (text.splitOn '/').map List.length = gaps list := by
  induction list with
  | nil => exact ⟨[], rfl, rfl⟩
  | cons piece list induction =>
      rw [Open, List.forall_mem_cons] at opened
      rw [List.forall_mem_cons] at steady
      obtain ⟨right, later, sizes⟩ := induction opened.2 steady.2
      cases repeated : piece.repeated with
      | true =>
          refine ⟨right, mem_matched_cons.mpr ⟨[], nothing_language repeated, right, later, rfl⟩, ?_⟩
          have unmarked : ¬mark piece = true := by
            rw [mark, repeated]
            exact Bool.false_ne_true
          rw [sizes, gaps, if_neg unmarked, weight, repeated, if_pos rfl, raised_zero]
      | false =>
          obtain ⟨char, known⟩ := opened.1 repeated
          refine ⟨char :: right, mem_matched_cons.mpr
            ⟨[char], (once_language repeated).mpr known, right, later, rfl⟩, ?_⟩
          rw [List.splitOn_cons_eq_if_modifyHead, gaps, ← sizes]
          by_cases marked : mark piece = true
          · rw [if_pos marked, steady.1.once marked char known]
            rfl
          · have apart : char ≠ '/' := by
              rintro rfl
              apply marked
              rw [mark, repeated, known]
              rfl
            rw [if_neg marked, if_neg (by simpa using apart), weight, repeated]
            obtain ⟨first, others, shape⟩ := List.exists_cons_of_ne_nil (List.splitOn_ne_nil '/' right)
            rw [shape]
            exact congrArg (· :: others.map List.length) (Nat.add_comm _ _)

theorem matched_with {piece : Piece} (some : text ∈ matched list) (inside : piece ∈ list) :
    ∃ left right, ∀ other ∈ piece.regex.language, left ++ other ++ right ∈ matched list := by
  induction list generalizing text with
  | nil => cases inside
  | cons first rest induction =>
      obtain ⟨front, here, behind, later, -⟩ := mem_matched_cons.mp some
      rcases List.mem_cons.mp inside with rfl | among
      · exact ⟨[], behind, fun other member => mem_matched_cons.mpr ⟨other, member, behind, later, rfl⟩⟩
      · obtain ⟨left, right, each⟩ := induction later among
        exact ⟨front ++ left, right, fun other member => mem_matched_cons.mpr
          ⟨front, here, left ++ other ++ right, each other member, by simp⟩⟩

theorem steady_of_count {count : Nat} (some : text ∈ matched list)
    (counted : ∀ other ∈ matched list, other.count '/' = count)
    (risen : ∀ piece ∈ list, rising piece.set = true) : ∀ piece ∈ list, Steady piece := by
  intro piece member
  obtain ⟨left, right, each⟩ := matched_with some member
  have alike {one two : Text} (first : one ∈ piece.regex.language) (second : two ∈ piece.regex.language) :
      one.count '/' = two.count '/' := by
    have here := counted _ (each one first)
    have there := counted _ (each two second)
    simp only [List.count_append] at here there
    omega
  refine ⟨risen piece member, fun repeated => ?_, fun marked char known => ?_⟩
  · rw [← Bool.not_eq_true]
    intro admits
    have same := alike (nothing_language repeated) (repeated_language repeated admits)
    simp at same
  · rw [mark, Bool.and_eq_true, Bool.not_eq_true'] at marked
    have same := alike ((once_language marked.1).mpr marked.2) ((once_language marked.1).mpr known)
    by_contra apart
    rw [List.count_singleton_self, List.count_eq_zero.mpr (by simpa using Ne.symm apart)] at same
    cases same

theorem unmarked_of_bare (member : text ∈ matched list) (bare : '/' ∉ text) :
    ∀ piece ∈ list, Steady piece → mark piece = false := by
  induction list generalizing text with
  | nil => exact nofun
  | cons piece list induction =>
      obtain ⟨left, here, right, later, rfl⟩ := mem_matched_cons.mp member
      rw [List.mem_append, not_or] at bare
      refine List.forall_mem_cons.mpr ⟨fun steady => ?_, induction later bare.2⟩
      rw [← Bool.not_eq_true]
      intro marked
      have once := marked
      rw [mark, Bool.and_eq_true, Bool.not_eq_true'] at once
      obtain ⟨char, known, rfl⟩ := once_cases once.1 here
      exact bare.1 (by rw [steady.once marked char known]; exact List.mem_singleton_self _)

theorem matched_bare (without : ∀ piece ∈ list, piece.set.contains '/' = false)
    (member : text ∈ matched list) : '/' ∉ text := by
  induction list generalizing text with
  | nil =>
      rw [show text = [] from member]
      exact List.not_mem_nil
  | cons piece list induction =>
      rw [List.forall_mem_cons] at without
      obtain ⟨left, here, right, later, rfl⟩ := mem_matched_cons.mp member
      rw [List.mem_append, not_or]
      refine ⟨fun slash => ?_, induction without.2 later⟩
      cases repeated : piece.repeated with
      | false =>
          obtain ⟨char, known, rfl⟩ := once_cases repeated here
          rw [List.mem_singleton] at slash
          rw [← slash, without.1] at known
          cases known
      | true =>
          rw [Piece.regex, repeated, if_pos rfl] at here
          obtain ⟨parts, rfl, each⟩ := Language.mem_kstar.mp here
          obtain ⟨part, among, inside⟩ := List.mem_flatten.mp slash
          obtain ⟨char, known, rfl⟩ := each part among
          rw [List.mem_singleton] at inside
          rw [← inside, without.1] at known
          cases known

theorem matched_append {first second : List Piece} (member : text ∈ matched (first ++ second)) :
    ∃ left ∈ matched first, ∃ right ∈ matched second, left ++ right = text := by
  rw [matched, List.map_append] at member
  exact Regex.mem_concat_append.mp member

theorem matched_components {lists : List (List Piece)} (full : lists ≠ [])
    (member : text ∈ matched ([⟨.single '/', false⟩].intercalate lists)) :
    ∃ parts, List.Forall₂ (fun part list => part ∈ matched list) parts lists ∧
      text = ['/'].intercalate parts := by
  induction lists generalizing text with
  | nil => exact absurd rfl full
  | cons first rest induction =>
      by_cases last : rest = []
      · rw [last, List.intercalate_singleton] at member
        rw [last]
        exact ⟨[text], .cons member .nil, by simp⟩
      · rw [List.intercalate_cons_of_ne_nil last, List.append_assoc] at member
        obtain ⟨left, here, right, more, rfl⟩ := matched_append member
        obtain ⟨between, slash, behind, later, rfl⟩ := mem_matched_cons.mp more
        obtain ⟨char, same, rfl⟩ := once_cases rfl slash
        rw [CharSet.contains_single] at same
        obtain ⟨parts, each, rfl⟩ := induction last later
        have some : parts ≠ [] := by
          rintro rfl
          cases each
          exact last rfl
        refine ⟨left :: parts, .cons here each, ?_⟩
        rw [same, List.intercalate_cons_of_ne_nil some]
        simp

end Pieces

theorem fullmatch_iff {expression path : Text} :
    fullmatch expression path = some true ↔
      ∃ items, Pattern.compile expression = some items ∧ path ∈ (Regex.concat items).language := by
  rw [fullmatch, Option.map_eq_some_iff]
  simp only [Regex.accepts_iff]

/-- A pattern compiles, and each path it matches has the pattern's slashes and matches it
component by component. -/
def Contained (pattern : Text) : Prop :=
  (∃ items, Pattern.compile (globRegex pattern) = some items) ∧
    ∀ path, fullmatch (globRegex pattern) path = some true →
      path.count '/' = pattern.count '/' ∧
        List.Forall₂ (fun part comp => fullmatch (globRegex comp) part = some true)
          (path.splitOn '/') (pattern.splitOn '/')

/-- A component of which every group is closed and no range falls, and which covers the slash
exactly where it is negated. -/
def Orderly (comp : Text) : Prop :=
  Spells (scan 0 comp) ∧
    ∀ piece ∈ pieces none (scan 0 comp), covers piece.set.ranges '/' = piece.set.negated

/-- A pattern of which every group is closed and no range falls, with a negated group, not
repeated, that covers every character. -/
def Barren (pattern : Text) : Prop :=
  Spells (scan 0 pattern) ∧
    ∃ piece ∈ pieces none (scan 0 pattern), piece.repeated = false ∧ piece.set.negated = true ∧
      ∀ char, covers piece.set.ranges char = true

def Keeps (pattern : Text) : Prop :=
  Barren pattern ∨ Shut (scan 0 pattern) ∧ ∀ comp ∈ pattern.splitOn '/', Orderly comp

theorem apart_none {comps : List (List Token)} (each : ∀ comp ∈ comps, Bare none comp) :
    Apart none comps := by
  cases comps with
  | nil => trivial
  | cons first others => exact List.forall_mem_cons.mp each

theorem needs_none (comps : List (List Token)) : needs none comps = comps.map (need none) := by
  cases comps <;> rfl

theorem pieces_components {comps : List (List Token)} (full : comps ≠ [])
    (closed : ∀ comp ∈ comps, left none comp = none) :
    left none ([.literal '/'].intercalate comps) = none ∧
      pieces none ([.literal '/'].intercalate comps) =
        [⟨.single '/', false⟩].intercalate (comps.map (pieces none)) := by
  induction comps with
  | nil => exact absurd rfl full
  | cons first rest induction =>
      rw [List.forall_mem_cons] at closed
      by_cases last : rest = []
      · subst last
        simpa using closed.1
      · obtain ⟨ends, shape⟩ := induction last closed.2
        rw [List.intercalate_cons_of_ne_nil last, List.map_cons,
          List.intercalate_cons_of_ne_nil (by simpa using last), left_append, left_append, pieces_append,
          pieces_append, left_append, closed.1]
        exact ⟨ends, congrArg _ shape⟩

theorem intercalate_around {α : Type} (mark : α) {parts : List (List α)} {part : List α}
    (member : part ∈ parts) :
    ∃ before behind, [mark].intercalate parts = before ++ part ++ behind := by
  induction parts with
  | nil => cases member
  | cons first rest induction =>
      by_cases last : rest = []
      · subst last
        rw [List.mem_singleton] at member
        exact ⟨[], [], by simp [member]⟩
      · rw [List.intercalate_cons_of_ne_nil last]
        rcases List.mem_cons.mp member with rfl | later
        · exact ⟨[], [mark] ++ [mark].intercalate rest, by simp⟩
        · obtain ⟨before, behind, split⟩ := induction later
          exact ⟨first ++ [mark] ++ before, behind, by rw [split]; simp⟩

theorem related_right {Left Right : Type} {Related : Left → Right → Prop} {lefts : List Left}
    {rights : List Right} (each : List.Forall₂ Related lefts rights) {left : Left}
    (member : left ∈ lefts) : ∃ right ∈ rights, Related left right := by
  induction each with
  | nil => cases member
  | @cons first right lefts rights here later induction =>
      rcases List.mem_cons.mp member with rfl | inside
      · exact ⟨right, List.mem_cons_self, here⟩
      · obtain ⟨other, among, known⟩ := induction inside
        exact ⟨other, List.mem_cons_of_mem _ among, known⟩

theorem mem_intercalate {α : Type} {mark item : α} {parts : List (List α)}
    (member : item ∈ [mark].intercalate parts) : item = mark ∨ ∃ part ∈ parts, item ∈ part := by
  induction parts with
  | nil => cases member
  | cons first rest induction =>
      by_cases last : rest = []
      · subst last
        exact .inr ⟨first, List.mem_cons_self, by simpa using member⟩
      · rw [List.intercalate_cons_of_ne_nil last, List.mem_append, List.mem_append,
          List.mem_singleton] at member
        rcases member with (here | same) | later
        · exact .inr ⟨first, List.mem_cons_self, here⟩
        · exact .inl same
        · rcases induction later with same | ⟨part, among, there⟩
          · exact .inl same
          · exact .inr ⟨part, List.mem_cons_of_mem _ among, there⟩

section Pattern

variable {pattern : Text}

theorem shallow_comp (shallow : doubleStar pattern = false) {comp : Text}
    (member : comp ∈ pattern.splitOn '/') : doubleStar comp = false := by
  have whole : ['/'].intercalate (pattern.splitOn '/') = pattern := List.intercalate_splitOn '/'
  obtain ⟨before, behind, split⟩ := intercalate_around '/' member
  rw [← whole, split] at shallow
  exact shallow_back (shallow_front shallow)

theorem matches_iff (shallow : doubleStar pattern = false) {path : Text} :
    fullmatch (globRegex pattern) path = some true ↔
      Spells (scan 0 pattern) ∧ path ∈ matched (pieces none (scan 0 pattern)) := by
  rw [fullmatch_iff]
  constructor
  · rintro ⟨items, compiled, member⟩
    obtain ⟨spells, rfl⟩ := (compile_iff (scan_narrow shallow)).mp compiled
    exact ⟨spells, member⟩
  · rintro ⟨spells, member⟩
    exact ⟨_, (compile_iff (scan_narrow shallow)).mpr ⟨spells, rfl⟩, member⟩

theorem compiles_iff (shallow : doubleStar pattern = false) :
    (∃ items, Pattern.compile (globRegex pattern) = some items) ↔ Spells (scan 0 pattern) := by
  constructor
  · rintro ⟨items, compiled⟩
    exact ((compile_iff (scan_narrow shallow)).mp compiled).1
  · exact fun spells => ⟨_, (compile_iff (scan_narrow shallow)).mpr ⟨spells, rfl⟩⟩

theorem contained_of_barren (shallow : doubleStar pattern = false) (barren : Barren pattern) :
    Contained pattern := by
  obtain ⟨spells, piece, member, once, negated, all⟩ := barren
  refine ⟨(compiles_iff shallow).mpr spells, fun path found => ?_⟩
  obtain ⟨-, some⟩ := (matches_iff shallow).mp found
  obtain ⟨char, known⟩ := matches_open some piece member once
  rw [contains_iff, all, negated] at known
  cases known

theorem open_of_fertile (spells : Spells (scan 0 pattern)) (fertile : ¬Barren pattern) :
    Open (pieces none (scan 0 pattern)) := by
  intro piece member once
  by_contra nothing
  rw [not_exists] at nothing
  apply fertile
  refine ⟨spells, piece, member, once, ?_⟩
  have covered (char : Char) : covers piece.set.ranges char = piece.set.negated := by
    have outside := nothing char
    rw [contains_iff, Bool.not_eq_true, bne_eq_false_iff_eq] at outside
    exact outside
  obtain ⟨range, others, shape⟩ :=
    List.exists_cons_of_ne_nil (pieces_full none (scan 0 pattern) piece member)
  have risen := spells.2 piece member
  rw [rising, shape, List.all_cons, Bool.and_eq_true, decide_eq_true_eq] at risen
  have first : covers piece.set.ranges range.1 = true := by
    rw [covers, shape, List.any_cons, decide_eq_true ⟨Char.le_refl _, risen.1⟩]
    rfl
  have negated : piece.set.negated = true := by rw [← covered range.1, first]
  exact ⟨negated, fun char => by rw [covered char, negated]⟩

theorem shut_of_contained (shallow : doubleStar pattern = false) (fertile : ¬Barren pattern)
    (contained : Contained pattern) :
    Shut (scan 0 pattern) ∧ ∀ comp ∈ pattern.splitOn '/', Orderly comp := by
  obtain ⟨compiles, stays⟩ := contained
  have spells := (compiles_iff shallow).mp compiles
  have opened := open_of_fertile spells fertile
  have each {path : Text} (member : path ∈ matched (pieces none (scan 0 pattern))) :=
    stays path ((matches_iff shallow).mpr ⟨spells, member⟩)
  obtain ⟨sample, known⟩ := open_matches opened
  have steady := steady_of_count known (fun other member => (each member).1) spells.2
  obtain ⟨path, member, sizes⟩ := shortest opened steady
  have alike := (each member).2
  have cut := components_scan shallow
  -- each component of the path is one of the pattern's, and has no slash
  have alone : ∀ comp ∈ pattern.splitOn '/', Bare none (scan 0 comp) ∧ Spells (scan 0 comp) := by
    intro comp inside
    obtain ⟨part, among, found⟩ := related_right alike.flip inside
    obtain ⟨own, here⟩ := (matches_iff (shallow_comp shallow inside)).mp found
    exact ⟨⟨own.1, unmarked_of_bare here (split_single path part among)⟩, own⟩
  have whole : Whole none (scan 0 pattern) := ⟨spells.1, steady⟩
  have apart : Apart none (components (scan 0 pattern)) := by
    rw [← cut]
    exact apart_none (List.forall_mem_map.mpr fun comp inside => (alone comp inside).1)
  have fits : Fits (gaps (pieces none (scan 0 pattern))) (needs none (components (scan 0 pattern))) := by
    rw [← sizes, ← cut, needs_none, List.map_map, Fits, List.forall₂_map_left_iff,
      List.forall₂_map_right_iff]
    have both := ((List.forall₂_and_left _ _).mpr ⟨fun comp => shallow_comp shallow, alike.flip⟩).flip
    exact both.imp fun part comp found => weight_le ((matches_iff found.1).mp found.2).2
  have shut := ((@strays _ (scan_narrow shallow) none none trivial whole apart).1 rfl).shut fits |>.2
  refine ⟨shut, fun comp inside => ⟨(alone comp inside).2, fun piece found => ?_⟩⟩
  have among : piece ∈ pieces none (scan 0 pattern) := by
    have closed : ∀ tokens ∈ (pattern.splitOn '/').map (scan 0), left none tokens = none :=
      List.forall_mem_map.mpr fun comp inside => (alone comp inside).1.closed
    have full : (pattern.splitOn '/').map (scan 0) ≠ [] := by simp [List.splitOn_ne_nil]
    rw [← components_shut (scan_narrow shallow) shut, ← cut, (pieces_components full closed).2]
    obtain ⟨before, behind, split⟩ := intercalate_around (⟨.single '/', false⟩ : Piece)
      (List.mem_map_of_mem (List.mem_map_of_mem inside))
    rw [split]
    simp [found]
  have here := steady piece among
  have without : piece.set.contains '/' = false := by
    cases repeated : piece.repeated with
    | true => exact here.repeated repeated
    | false =>
        have unmarked := (alone comp inside).1.unmarked piece found here
        rwa [mark, repeated, Bool.not_false, Bool.true_and] at unmarked
  rwa [contains_iff, bne_eq_false_iff_eq] at without

theorem contained_of_orderly (shallow : doubleStar pattern = false) (shut : Shut (scan 0 pattern))
    (orderly : ∀ comp ∈ pattern.splitOn '/', Orderly comp) : Contained pattern := by
  have cut := components_scan shallow
  have closed : ∀ tokens ∈ (pattern.splitOn '/').map (scan 0), left none tokens = none :=
    List.forall_mem_map.mpr fun comp inside => (orderly comp inside).1.1
  have some : (pattern.splitOn '/').map (scan 0) ≠ [] := by simp [List.splitOn_ne_nil]
  obtain ⟨ends, shape⟩ := pieces_components some closed
  rw [cut, components_shut (scan_narrow shallow) shut] at ends shape
  rw [← cut, List.map_map] at shape
  have without : ∀ comp ∈ pattern.splitOn '/', ∀ piece ∈ pieces none (scan 0 comp),
      piece.set.contains '/' = false := by
    intro comp inside piece member
    rw [contains_iff, (orderly comp inside).2 piece member, bne_self_eq_false]
  have risen : ∀ piece ∈ pieces none (scan 0 pattern), rising piece.set = true := by
    intro piece member
    rw [shape] at member
    rcases mem_intercalate member with rfl | ⟨list, among, here⟩
    · decide
    · obtain ⟨comp, inside, rfl⟩ := List.mem_map.mp among
      exact (orderly comp inside).1.2 piece here
  refine ⟨(compiles_iff shallow).mpr ⟨ends, risen⟩, fun path found => ?_⟩
  obtain ⟨-, member⟩ := (matches_iff shallow).mp found
  rw [shape] at member
  obtain ⟨parts, split, rfl⟩ := matched_components (by simp [List.splitOn_ne_nil]) member
  rw [List.forall₂_map_right_iff] at split
  have both := ((List.forall₂_and_left _ _).mpr ⟨fun comp inside => inside, split.flip⟩).flip
  have single : ∀ part ∈ parts, '/' ∉ part := by
    intro part inside
    obtain ⟨comp, -, among, here⟩ := related_right both inside
    exact matched_bare (without comp among) here
  have full : parts ≠ [] := by
    rintro rfl
    exact List.splitOn_ne_nil '/' pattern (List.length_eq_zero_iff.mp split.length_eq.symm)
  constructor
  · have counted := count_components full
    rw [(sum_bare parts).mpr single, Nat.zero_add, split.length_eq, ← count_split] at counted
    exact Nat.succ.inj counted
  · rw [List.splitOn_intercalate '/' single full]
    exact both.imp fun part comp inside =>
      (matches_iff (shallow_comp shallow inside.1)).mpr ⟨(orderly comp inside.1).1, inside.2⟩

/-- The wildcards of a pattern without a double star stay in their components where its
bracket groups are orderly, or one of them admits nothing; and only there. -/
theorem wildcards_stay (pattern : Text) (shallow : doubleStar pattern = false) :
    Contained pattern ↔ Keeps pattern := by
  constructor
  · intro contained
    by_cases barren : Barren pattern
    · exact .inl barren
    · exact .inr (shut_of_contained shallow barren contained)
  · rintro (barren | ⟨shut, orderly⟩)
    · exact contained_of_barren shallow barren
    · exact contained_of_orderly shallow shut orderly

end Pattern

instance (tokens : List Token) : Decidable (Spells tokens) := inferInstanceAs (Decidable (_ ∧ _))

instance (comp : Text) : Decidable (Orderly comp) := inferInstanceAs (Decidable (_ ∧ _))

def shutToken : Token → Bool
  | .group body => '/' ∉ body
  | _ => true

theorem shut_sound {tokens : List Token} (known : tokens.all shutToken = true) : Shut tokens := by
  rw [List.all_eq_true] at known
  exact fun body member => of_decide_eq_true (known _ member)

/-- A negated group keeps to its component where it covers the slash, an open one where a
wildcard closes it. -/
example : Orderly (str "[!+-9]") ∧ Orderly (str "[!]a*") ∧ ¬Orderly (str "[+-9]") ∧
    ¬Orderly (str "[]a*") ∧ ¬Orderly (str "[z-a]") ∧ ¬Orderly (str "[^]") := by decide

def runFiles : Text := str "/data/run[0-9]/*.root"

theorem run_files_stay : doubleStar runFiles = false ∧ Contained runFiles := by
  have shallow : doubleStar runFiles = false := by decide
  have shut : Shut (scan 0 runFiles) := shut_sound (by decide)
  have orderly : ∀ comp ∈ runFiles.splitOn '/', Orderly comp := by decide
  exact ⟨shallow, (wildcards_stay runFiles shallow).mpr (.inr ⟨shut, orderly⟩)⟩

/-- A negated group admits a slash. -/
theorem negated_leaves : doubleStar (str "/data[!0]") = false ∧ ¬Contained (str "/data[!0]") := by
  refine ⟨by decide, ?_⟩
  rintro ⟨-, stays⟩
  have count := (stays (str "/data/") (by decide)).1
  exact absurd count (by decide)

end XRootDClient.Glob.Brackets

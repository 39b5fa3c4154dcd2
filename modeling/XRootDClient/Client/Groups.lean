import XRootDClient.Client.Glob

/-!
# What bracket groups spell

A bracket group is read off the text between its brackets: it is negated by an exclamation
mark or a caret in front, and two characters with a dash between them are a range. A group
that has nothing else between its brackets takes the closing one for a member and stays
open; what follows is in it as well, up to a wildcard or another group. A pattern without
a double star is compiled to the sets it spells so, one item a set, unless a range falls or
a group stays open.
-/

set_option autoImplicit false

namespace XRootDClient.Glob.Brackets

open Lib

structure Piece where
  set : CharSet
  repeated : Bool
  deriving DecidableEq

def negates (body : Text) : Bool := body.head? = some '!' || body.head? = some '^'

/-- What is between the brackets of a group, behind its negation. -/
def members (body : Text) : Text := if negates body then body.tail else body

/-- What an open group takes of a body: it may be negated no more. -/
def careted : Text → Text
  | '!' :: more => '^' :: more
  | body => body

def ranges : Text → List (Char × Char)
  | low :: '-' :: high :: rest => (low, high) :: ranges rest
  | char :: rest => (char, char) :: ranges rest
  | [] => []

def adding (set : CharSet) (text : List (Char × Char)) : CharSet :=
  { set with ranges := set.ranges ++ text }

def noSlash : CharSet := ⟨true, [('/', '/')]⟩

/-- What a wildcard writes into an open group, up to its own bracket. -/
def opening : List (Char × Char) := [('[', '['), ('^', '^'), ('/', '/')]

def after : Option CharSet → Token → Option CharSet
  | none, .group body => if members body = [] then some ⟨negates body, [(']', ']')]⟩ else none
  | some set, .literal char => some (adding set [(char, char)])
  | _, _ => none

def spelt : Option CharSet → Token → List Piece
  | none, .literal char => [⟨.single char, false⟩]
  | none, .star => [⟨noSlash, true⟩]
  | none, .one => [⟨noSlash, false⟩]
  | none, .group body =>
      if members body = [] then [] else [⟨⟨negates body, ranges (members body)⟩, false⟩]
  | none, .deep | none, .any => []
  | some set, .star => [⟨adding set opening, true⟩]
  | some set, .one => [⟨adding set opening, false⟩]
  | some set, .group body => [⟨adding set (ranges ('[' :: careted body)), false⟩]
  | some _, .literal _ | some _, .deep | some _, .any => []

def left : Option CharSet → List Token → Option CharSet := List.foldl after

def pieces : Option CharSet → List Token → List Piece
  | _, [] => []
  | group, token :: rest => spelt group token ++ pieces (after group token) rest

theorem negates_cons (char : Char) (rest : Text) :
    negates (char :: rest) = true ↔ char = '!' ∨ char = '^' := by
  simp only [negates, List.head?_cons, Option.some.injEq, Bool.or_eq_true, decide_eq_true_eq]

/-- Only a mark in front is no member. -/
theorem mem_members {body : Text} {char : Char} (apart : char ≠ '!' ∧ char ≠ '^')
    (member : char ∈ body) : char ∈ members body := by
  unfold members
  split_ifs with negated
  · cases body with
    | nil => cases member
    | cons first rest =>
        rw [negates_cons] at negated
        rcases List.mem_cons.mp member with rfl | later
        · exact (negated.elim apart.1 apart.2).elim
        · exact later
  · exact member

theorem pieces_append (group : Option CharSet) (first second : List Token) :
    pieces group (first ++ second) = pieces group first ++ pieces (left group first) second := by
  induction first generalizing group with
  | nil => rfl
  | cons token rest induction => rw [List.cons_append, pieces, induction, pieces, List.append_assoc]; rfl

theorem left_append (group : Option CharSet) (first second : List Token) :
    left group (first ++ second) = left (left group first) second :=
  List.foldl_append

theorem ranges_full {text : Text} (some : text ≠ []) : ranges text ≠ [] := by
  unfold ranges
  split
  · exact List.cons_ne_nil _ _
  · exact List.cons_ne_nil _ _
  · exact absurd rfl some

theorem pieces_full (group : Option CharSet) (tokens : List Token) :
    ∀ piece ∈ pieces group tokens, piece.set.ranges ≠ [] := by
  induction tokens generalizing group with
  | nil => exact nofun
  | cons token rest induction =>
      refine List.forall_mem_append.mpr ⟨?_, induction _⟩
      have behind (set : CharSet) {more : List (Char × Char)} (some : more ≠ []) :
          (adding set more).ranges ≠ [] := List.append_ne_nil_of_right_ne_nil _ some
      cases group with
      | none =>
          cases token with
          | deep | any => exact nofun
          | star | one | literal char => exact List.forall_mem_singleton.mpr (List.cons_ne_nil _ _)
          | group body =>
              rw [spelt]
              split_ifs with empty
              · exact nofun
              · exact List.forall_mem_singleton.mpr (ranges_full empty)
      | some set =>
          cases token with
          | deep | any | literal char => exact nofun
          | star | one => exact List.forall_mem_singleton.mpr (behind set (List.cons_ne_nil _ _))
          | group body =>
              exact List.forall_mem_singleton.mpr (behind set (ranges_full (List.cons_ne_nil _ _)))

def Piece.regex (piece : Piece) : Regex :=
  if piece.repeated then .star (.among piece.set) else .among piece.set

def rising (set : CharSet) : Bool := set.ranges.all fun range => decide (range.1 ≤ range.2)

theorem rising_cons {negated : Bool} {range : Char × Char} {others : List (Char × Char)} :
    rising ⟨negated, range :: others⟩ = (decide (range.1 ≤ range.2) && rising ⟨negated, others⟩) := rfl

theorem rising_adding (set : CharSet) (more : List (Char × Char)) :
    rising (adding set more) = (rising set && rising ⟨set.negated, more⟩) :=
  List.all_append

/-- What a pattern without a double star is scanned into. -/
def Narrow : Token → Prop
  | .group body => ']' ∉ body
  | .literal char => char ≠ '*' ∧ char ≠ '?'
  | .star | .one => True
  | .deep | .any => False

section Reading

variable {negated : Bool} {before : List (Char × Char)} {items : List (Regex × Bool)}
  {outer : List (List (Regex × Bool))}

def doubled (body : Text) : Text := body.flatMap fun char => if char = '\\' then ['\\', '\\'] else [char]

theorem set_text (body : Text) : setText body = doubled (careted body) := by
  unfold setText doubled
  split
  · next more same =>
      cases body with
      | nil => cases same
      | cons char rest =>
          rw [List.flatMap_cons] at same
          split_ifs at same
          · cases same
          · cases same
            rfl
  · next other =>
      cases body with
      | nil => rfl
      | cons char rest =>
          have apart : char ≠ '!' := by
            rintro rfl
            exact other _ rfl
          rw [careted]
          rintro more same
          exact apart (List.cons.inj same).1

def Stands : Pattern.Stage → Char → Prop
  | .start, char => char ≠ '^'
  | .member _, char => char ≠ '-'
  | _, _ => True

theorem doubled_run (stage : Pattern.Stage) {char : Char} (rest tail : Text) (bare : ']' ≠ char)
    (stands : Stands stage char) :
    Pattern.run ⟨.within negated before stage, items, outer⟩ (doubled (char :: rest) ++ tail) =
      (Pattern.Parser.enter ⟨.within negated before stage, items, outer⟩ negated before stage char).bind
        fun parser => Pattern.run parser (doubled rest ++ tail) := by
  by_cases slash : char = '\\'
  · rw [slash]
    have quoted : ('\\' : Char).isAlphanum = false := by decide
    have same : Pattern.Parser.enter ⟨.quoted negated before stage, items, outer⟩ negated before
        stage '\\' =
        Pattern.Parser.enter ⟨.within negated before stage, items, outer⟩ negated before stage '\\' := by
      cases stage <;> rfl
    rw [← same]
    change (Pattern.Parser.step ⟨.quoted negated before stage, items, outer⟩ '\\').bind _ = _
    rw [Pattern.Parser.step, quoted]
    rfl
  · have single : doubled (char :: rest) = char :: doubled rest := by
      rw [doubled, List.flatMap_cons, if_neg slash]
      rfl
    have inside : Pattern.Parser.step ⟨.within negated before stage, items, outer⟩ char =
        Pattern.Parser.enter ⟨.within negated before stage, items, outer⟩ negated before stage char := by
      unfold Pattern.Parser.step Pattern.Parser.inside
      dsimp only
      rw [if_neg slash, if_neg (Ne.symm bare)]
      split
      · exact absurd rfl stands
      · exact absurd rfl stands
      · rfl
    rw [single, List.cons_append]
    change (Pattern.Parser.step _ char).bind _ = _
    rw [inside]
    rfl

theorem closed_run (stage : Pattern.Stage) (tail : Text) :
    Pattern.run ⟨.within negated before stage, items, outer⟩ (']' :: tail) =
      (Pattern.Parser.bracket ⟨.within negated before stage, items, outer⟩ negated before stage).bind
        fun parser => Pattern.run parser tail := rfl

theorem more_run (text tail : Text) (bare : ']' ∉ text) :
    Pattern.run ⟨.within negated before .more, items, outer⟩ (doubled text ++ ']' :: tail) =
      if rising ⟨negated, ranges text⟩ then
        Pattern.run ⟨.plain, (.among ⟨negated, before ++ ranges text⟩, false) :: items, outer⟩ tail
      else none := by
  induction text using ranges.induct generalizing before with
  | case1 low high rest induction =>
      simp only [List.mem_cons, not_or] at bare
      rw [doubled_run .more _ _ bare.1 trivial]
      change Pattern.run ⟨.within negated before (.dash low), items, outer⟩
        (doubled (high :: rest) ++ ']' :: tail) = _
      rw [doubled_run (.dash low) _ _ bare.2.2.1 trivial]
      unfold Pattern.Parser.enter
      dsimp only
      by_cases risen : low ≤ high
      · have same : rising ⟨negated, ranges (low :: '-' :: high :: rest)⟩ =
            rising ⟨negated, ranges rest⟩ := by
          rw [ranges, rising_cons, decide_eq_true risen, Bool.true_and]
        rw [if_pos risen, Option.bind_some, induction bare.2.2.2, same, ranges, List.append_assoc]
        rfl
      · have falls : rising ⟨negated, ranges (low :: '-' :: high :: rest)⟩ = false := by
          rw [ranges, rising_cons, decide_eq_false risen, Bool.false_and]
        rw [if_neg risen, falls]
        rfl
  | case2 char rest other induction =>
      simp only [List.mem_cons, not_or] at bare
      rw [doubled_run .more _ _ bare.1 trivial]
      have whole : ranges (char :: rest) = (char, char) :: ranges rest := by
        rw [ranges]
        exact other
      have same : rising ⟨negated, ranges (char :: rest)⟩ = rising ⟨negated, ranges rest⟩ := by
        rw [whole, rising_cons, decide_eq_true (Char.le_refl char), Bool.true_and]
      have later := @induction (before ++ [(char, char)]) bare.2
      rw [same, whole]
      rw [List.append_assoc, List.singleton_append] at later
      rw [← later]
      change Pattern.run ⟨.within negated before (.member char), items, outer⟩
        (doubled rest ++ ']' :: tail) = _
      cases rest with
      | nil => rfl
      | cons next more =>
          by_cases dash : next = '-'
          · subst dash
            cases more with
            | nil =>
                change Pattern.run ⟨.plain,
                    (.among ⟨negated, before ++ [(char, char), ('-', '-')]⟩, false) :: items,
                    outer⟩ tail =
                  Pattern.run ⟨.plain,
                    (.among ⟨negated, before ++ [(char, char)] ++ [('-', '-')]⟩, false) :: items,
                    outer⟩ tail
                rw [List.append_assoc]
                rfl
            | cons high more => exact (other high more rfl).elim
          · have apart : ']' ≠ next := fun same => bare.2 (same ▸ List.mem_cons_self)
            rw [doubled_run (.member char) _ _ apart dash, doubled_run .more _ _ apart trivial]
            rfl
  | case3 => simp [doubled, closed_run, Pattern.Parser.bracket, Pattern.Parser.add, ranges, rising]

theorem literal_run (last char : Char) :
    Pattern.run ⟨.within negated before (.member last), items, outer⟩ (escape char) =
      some ⟨.within negated (before ++ [(last, last)]) (.member char), items, outer⟩ := by
  unfold escape
  split_ifs with marked
  · have mark := special_mark char marked
    change (if char.isAlphanum = true then none else
      some (Pattern.Parser.mk (.within negated (before ++ [(last, last)]) (.member char)) items
        outer)) >>= pure = _
    rw [mark]
    rfl
  · have apart (mark : Char) (known : mark ∈ special) : char ≠ mark := fun same => marked (same ▸ known)
    have plain : doubled [char] = [char] := by
      rw [doubled, List.flatMap_cons, if_neg (apart '\\' (by decide))]
      rfl
    have run : Pattern.run ⟨.within negated before (.member last), items, outer⟩
        (doubled [char] ++ []) = _ :=
      doubled_run (.member last) [] [] (Ne.symm (apart ']' (by decide))) (apart '-' (by decide))
    rw [plain] at run
    exact run

theorem first_run {stage : Pattern.Stage} (early : stage = .start ∨ stage = .first) {char : Char}
    (rest tail : Text) (bare : ']' ≠ char) (stands : Stands stage char) :
    Pattern.run ⟨.within negated before stage, items, outer⟩ (doubled (char :: rest) ++ tail) =
      Pattern.run ⟨.within negated before .more, items, outer⟩ (doubled (char :: rest) ++ tail) := by
  rw [doubled_run stage _ _ bare stands, doubled_run .more _ _ bare trivial]
  rcases early with rfl | rfl <;> rfl

theorem bare_members {body : Text} (bare : ']' ∉ body) : ']' ∉ members body := by
  unfold members
  split_ifs
  · exact fun inside => bare (List.mem_of_mem_tail inside)
  · exact bare

theorem bare_careted {body : Text} (bare : ']' ∉ body) : ']' ∉ careted body := by
  unfold careted
  split
  · next more =>
      rw [List.mem_cons, not_or] at bare ⊢
      exact ⟨by decide, bare.2⟩
  · exact bare

theorem group_run (body tail : Text) (bare : ']' ∉ body) :
    Pattern.run ⟨.plain, items, outer⟩ ('[' :: setText body ++ ']' :: tail) =
      if members body = [] then
        Pattern.run ⟨.within (negates body) [] (.member ']'), items, outer⟩ tail
      else
        Pattern.run ⟨.within (negates body) [] .more, items, outer⟩
          (doubled (members body) ++ ']' :: tail) := by
  rw [set_text]
  change Pattern.run ⟨.within false [] .start, items, outer⟩ (doubled (careted body) ++ ']' :: tail) = _
  have behind (more : Text) (bare : ']' ∉ more) :
      Pattern.run ⟨.within true [] .first, items, outer⟩ (doubled more ++ ']' :: tail) =
        if more = [] then Pattern.run ⟨.within true [] (.member ']'), items, outer⟩ tail
        else Pattern.run ⟨.within true [] .more, items, outer⟩ (doubled more ++ ']' :: tail) := by
    cases more with
    | nil => rfl
    | cons char rest =>
        rw [if_neg (List.cons_ne_nil _ _)]
        rw [List.mem_cons, not_or] at bare
        exact first_run (.inr rfl) rest _ bare.1 trivial
  cases body with
  | nil => rfl
  | cons char rest =>
      rw [List.mem_cons, not_or] at bare
      by_cases mark : char = '!' ∨ char = '^'
      · have same : careted (char :: rest) = '^' :: rest := by
          rcases mark with rfl | rfl <;> rfl
        have negated : negates (char :: rest) = true := by
          rcases mark with rfl | rfl <;> rfl
        have shape : members (char :: rest) = rest := by
          rw [members, if_pos negated]
          rfl
        rw [same, negated, shape]
        exact behind rest bare.2
      · rw [not_or] at mark
        have same : careted (char :: rest) = char :: rest := by
          unfold careted
          split
          · next shape => exact absurd (List.cons.inj shape).1 mark.1
          · rfl
        have plain : negates (char :: rest) = false := by
          simp [negates, mark.1, mark.2]
        have shape : members (char :: rest) = char :: rest := by
          rw [members, plain]
          rfl
        rw [same, plain, shape, if_neg (List.cons_ne_nil _ _)]
        exact first_run (.inl rfl) rest _ bare.1 mark.2

end Reading

/-- How the parser stands where a group is open, or none. -/
def Reads : Option CharSet → Pattern.Mode → Prop
  | none, mode => mode = .plain
  | some set, mode => rising set = true ∧ ∃ before last, set.ranges = before ++ [(last, last)] ∧
      mode = .within set.negated before (.member last)

def Piece.node (piece : Piece) : Regex × Bool := (piece.regex, piece.repeated)

theorem spelt_run {token : Token} (narrow : Narrow token) {group : Option CharSet} {mode : Pattern.Mode}
    (reads : Reads group mode) (items : List (Regex × Bool)) (outer : List (List (Regex × Bool))) :
    ∃ next, Reads (after group token) next ∧
      ∀ tail, Pattern.run ⟨mode, items, outer⟩ (token.text ++ tail) =
        if (spelt group token).all (rising ·.set) then
          Pattern.run ⟨next, (spelt group token).map Piece.node ++ items, outer⟩ tail
        else none := by
  cases group with
  | none =>
      cases reads
      cases token with
      | deep | any => exact narrow.elim
      | star | one | literal char =>
          refine ⟨.plain, rfl, fun tail => ?_⟩
          rw [Pattern.run_append, token_run rfl]
          simp [spelt, rising, CharSet.single, noSlash, Token.node, Piece.node, Piece.regex, slashless]
      | group body =>
          have run (tail : Text) :
              Pattern.run ⟨.plain, items, outer⟩ ('[' :: setText body ++ ']' :: tail) = _ :=
            group_run body tail narrow
          by_cases empty : members body = []
          · refine ⟨.within (negates body) [] (.member ']'), ?_, fun tail => ?_⟩
            · rw [after, if_pos empty]
              exact ⟨rfl, [], ']', rfl, rfl⟩
            · rw [Token.text, List.append_assoc, List.singleton_append, run, if_pos empty, spelt,
                if_pos empty]
              rfl
          · refine ⟨.plain, ?_, fun tail => ?_⟩
            · rw [after, if_neg empty]
              rfl
            · rw [Token.text, List.append_assoc, List.singleton_append, run, if_neg empty, spelt,
                if_neg empty, more_run _ _ (bare_members narrow)]
              simp [Piece.node, Piece.regex]
  | some set =>
      obtain ⟨risen, before, last, known, rfl⟩ := reads
      cases token with
      | deep | any => exact narrow.elim
      | star | one =>
          refine ⟨.plain, rfl, fun tail => ?_⟩
          have spells : rising (adding set opening) = true := by
            rw [rising_adding, risen]
            rfl
          have shape : adding set opening = ⟨set.negated, before ++ [(last, last)] ++ [('[', '[')] ++
              [('^', '^')] ++ [('/', '/')]⟩ := by
            simp [adding, opening, known]
          rw [spelt, List.all_cons, spells, shape]
          rfl
      | literal char =>
          refine ⟨.within set.negated set.ranges (.member char), ⟨?_, set.ranges, char, rfl, rfl⟩,
            fun tail => ?_⟩
          · rw [rising_adding, risen, Bool.true_and, rising_cons, decide_eq_true (Char.le_refl char)]
            rfl
          · rw [Pattern.run_append, Token.text, literal_run, known]
            rfl
      | group body =>
          refine ⟨.plain, rfl, fun tail => ?_⟩
          have bare := bare_careted narrow
          have start : Pattern.run ⟨.within set.negated before (.member last), items, outer⟩
                ('[' :: setText body ++ ']' :: tail) =
              Pattern.run ⟨.within set.negated set.ranges .more, items, outer⟩
                (doubled ('[' :: careted body) ++ ']' :: tail) := by
            rw [set_text, known]
            rfl
          rw [Token.text, List.append_assoc, List.singleton_append, start,
            more_run _ _ (by simpa using bare), spelt, List.all_cons, rising_adding, risen]
          simp only [Bool.true_and, List.all_nil, Bool.and_true]
          rfl

theorem pieces_run {tokens : List Token} (narrow : ∀ token ∈ tokens, Narrow token)
    {group : Option CharSet} {mode : Pattern.Mode} (reads : Reads group mode)
    (items : List (Regex × Bool)) (outer : List (List (Regex × Bool))) :
    ∃ next, Reads (left group tokens) next ∧
      Pattern.run ⟨mode, items, outer⟩ (tokens.flatMap Token.text) =
        if (pieces group tokens).all (rising ·.set) then
          some ⟨next, ((pieces group tokens).map Piece.node).reverse ++ items, outer⟩
        else none := by
  induction tokens generalizing group mode items with
  | nil => exact ⟨mode, reads, rfl⟩
  | cons token rest induction =>
      rw [List.forall_mem_cons] at narrow
      obtain ⟨next, here, run⟩ := spelt_run narrow.1 reads items outer
      have few : (spelt group token).map Piece.node = ((spelt group token).map Piece.node).reverse := by
        unfold spelt
        split
        on_goal 4 => split_ifs
        all_goals rfl
      obtain ⟨last, there, later⟩ := induction narrow.2 here ((spelt group token).map Piece.node ++ items)
      refine ⟨last, there, ?_⟩
      rw [List.flatMap_cons, run, pieces, List.all_append]
      by_cases risen : (spelt group token).all (rising ·.set) = true
      · rw [if_pos risen, risen, Bool.true_and, later, few]
        simp only [List.map_append, List.reverse_append, List.append_assoc, List.reverse_reverse]
      · rw [if_neg risen, if_neg]
        rw [Bool.and_eq_true]
        exact fun both => risen both.1

/-- Tokens spell sets where no group is left open and no range falls. -/
def Spells (tokens : List Token) : Prop :=
  left none tokens = none ∧ ∀ piece ∈ pieces none tokens, rising piece.set = true

theorem compile_iff {tokens : List Token} (narrow : ∀ token ∈ tokens, Narrow token) {items : List Regex} :
    Pattern.compile (tokens.flatMap Token.text) = some items ↔
      Spells tokens ∧ items = (pieces none tokens).map Piece.regex := by
  have outside : Reads none .plain := rfl
  obtain ⟨next, reads, run⟩ := pieces_run narrow outside [] []
  rw [Pattern.compile, Pattern.start, run, Spells, ← List.all_eq_true]
  have sequence : Pattern.sequence ((pieces none tokens).map Piece.node).reverse =
      (pieces none tokens).map Piece.regex := by
    rw [Pattern.sequence, List.map_reverse, List.reverse_reverse, List.map_map]
    rfl
  by_cases risen : (pieces none tokens).all (rising ·.set) = true
  · rw [if_pos risen, Option.bind_some, List.append_nil]
    cases final : left none tokens with
    | none =>
        rw [final] at reads
        cases reads
        simp [sequence, risen, eq_comm]
    | some set =>
        rw [final] at reads
        obtain ⟨-, before, last, -, rfl⟩ := reads
        simp
  · rw [if_neg risen]
    simp [risen]

end XRootDClient.Glob.Brackets

import XRootDClient.Client.Components

/-!
# Groups that hold a slash

Where a pattern matches something, with the pattern's slashes and component by component,
its shortest path has in each component at least the characters that the component needs
alone. A group that holds a slash needs its bracket in the component it begins in, and the
sets that would make up for it come too late: no pattern with such a group keeps its
wildcards in their components.
-/

set_option autoImplicit false

namespace XRootDClient.Glob.Brackets

open Lib

def covers (ranges : List (Char × Char)) (char : Char) : Bool :=
  ranges.any fun range => decide (range.1 ≤ char ∧ char ≤ range.2)

theorem contains_iff (set : CharSet) (char : Char) :
    set.contains char = (covers set.ranges char != set.negated) := rfl

theorem covers_single {ranges : List (Char × Char)} {char : Char} (member : (char, char) ∈ ranges) :
    covers ranges char = true :=
  List.any_eq_true.mpr ⟨_, member, decide_eq_true ⟨Char.le_refl char, Char.le_refl char⟩⟩

theorem covers_text {negated : Bool} {text : Text} (risen : rising ⟨negated, ranges text⟩ = true)
    {char : Char} (apart : char ≠ '-') (member : char ∈ text) : covers (ranges text) char = true := by
  induction text using ranges.induct with
  | case1 low high rest induction =>
      rw [ranges, rising_cons, Bool.and_eq_true, decide_eq_true_eq] at risen
      rw [ranges, covers, List.any_cons, Bool.or_eq_true, decide_eq_true_eq]
      simp only [List.mem_cons] at member
      rcases member with rfl | rfl | rfl | later
      · exact .inl ⟨Char.le_refl _, risen.1⟩
      · exact absurd rfl apart
      · exact .inl ⟨risen.1, Char.le_refl _⟩
      · exact .inr (induction risen.2 later)
  | case2 first rest other induction =>
      have whole : ranges (first :: rest) = (first, first) :: ranges rest := by
        rw [ranges]
        exact other
      rw [whole, rising_cons, Bool.and_eq_true] at risen
      rw [whole, covers, List.any_cons, Bool.or_eq_true, decide_eq_true_eq]
      rcases List.mem_cons.mp member with rfl | later
      · exact .inl ⟨Char.le_refl _, Char.le_refl _⟩
      · exact .inr (induction risen.2 later)
  | case3 => cases member

def mark (piece : Piece) : Bool := !piece.repeated && piece.set.contains '/'

/-- A piece that matches as many slashes, whatever it matches. -/
structure Steady (piece : Piece) : Prop where
  risen : rising piece.set = true
  repeated : piece.repeated = true → piece.set.contains '/' = false
  once : mark piece = true → ∀ char, piece.set.contains char = true → char = '/'

theorem Steady.unmarked {piece : Piece} (steady : Steady piece) (char : Char)
    (admits : piece.set.contains char = true) (apart : char ≠ '/') : mark piece = false := by
  rw [← Bool.not_eq_true]
  exact fun marked => apart (steady.once marked char admits)

theorem Steady.covering {piece : Piece} (steady : Steady piece) (char : Char) (apart : char ≠ '/')
    (one : covers piece.set.ranges char = true) (slash : covers piece.set.ranges '/' = true) :
    mark piece = false := by
  cases known : piece.set.negated with
  | false => exact steady.unmarked char (by rw [contains_iff, one, known]; rfl) apart
  | true => rw [mark, contains_iff, slash, known, Bool.true_bne, Bool.not_true, Bool.and_false]

def Wide : Option CharSet → Prop
  | none => True
  | some set => (']', ']') ∈ set.ranges ∧ covers set.ranges '*' = false

theorem covers_adding (set : CharSet) (more : List (Char × Char)) (char : Char) :
    covers (adding set more).ranges char = (covers set.ranges char || covers more char) :=
  List.any_append

theorem wide_after {group : Option CharSet} (wide : Wide group) {token : Token} (narrow : Narrow token) :
    Wide (after group token) := by
  cases group with
  | none =>
      cases token with
      | group body =>
          rw [after]
          split_ifs
          · have bracket : covers [(']', ']')] '*' = false := by decide
            exact ⟨List.mem_singleton_self _, bracket⟩
          · trivial
      | deep | any | star | one | literal char => trivial
  | some set =>
      cases token with
      | literal char =>
          refine ⟨List.mem_append_left _ wide.1, ?_⟩
          rw [covers_adding, wide.2, Bool.false_or, covers, List.any_cons, List.any_nil, Bool.or_false]
          exact decide_eq_false fun both => narrow.1 (Char.le_antisymm both.1 both.2)
      | deep | any | star | one | group body => trivial

theorem closed_unmarked {set : CharSet} (wide : Wide (some set)) {more : List (Char × Char)}
    {repeated : Bool} (steady : Steady ⟨adding set more, repeated⟩)
    (slash : covers more '/' = true) : mark ⟨adding set more, repeated⟩ = false := by
  apply steady.covering ']' (by decide)
  · rw [covers_adding, covers_single wide.1]
    rfl
  · rw [covers_adding, slash, Bool.or_true]

theorem careted_empty {body : Text} (empty : members body = []) :
    careted body = [] ∨ careted body = ['^'] := by
  cases body with
  | nil => exact .inl rfl
  | cons char rest =>
      unfold members at empty
      split_ifs at empty with negated
      · rw [List.tail_cons] at empty
        subst empty
        rw [negates_cons] at negated
        right
        rcases negated with rfl | rfl <;> rfl

/-- An empty group closes an open one, and makes a set of it that admits more than a slash. -/
theorem empty_unmarked {set : CharSet} (wide : Wide (some set)) {body : Text} (empty : members body = [])
    {repeated : Bool} (steady : Steady ⟨adding set (ranges ('[' :: careted body)), repeated⟩) :
    mark ⟨adding set (ranges ('[' :: careted body)), repeated⟩ = false := by
  have few : covers (ranges ('[' :: careted body)) '*' = false := by
    rcases careted_empty empty with same | same <;> rw [same] <;> decide
  cases known : set.negated with
  | false =>
      apply steady.unmarked ']' _ (by decide)
      rw [contains_iff, covers_adding, covers_single wide.1]
      simp [adding, known]
  | true =>
      apply steady.unmarked '*' _ (by decide)
      rw [contains_iff, covers_adding, wide.2, few]
      simp [adding, known]

def weight (piece : Piece) : Nat := if piece.repeated then 0 else 1

def raised (more : Nat) : List Nat → List Nat
  | [] => []
  | first :: rest => (more + first) :: rest

def gaps : List Piece → List Nat
  | [] => [0]
  | piece :: rest => if mark piece then 0 :: gaps rest else raised (weight piece) (gaps rest)

def need (group : Option CharSet) (tokens : List Token) : Nat := ((pieces group tokens).map weight).sum

/-- How long a path's components are at least, for components of a pattern alone. The
first of them begins behind a group that is open, or none. -/
def needs (group : Option CharSet) : List (List Token) → List Nat
  | [] => []
  | first :: others => need group first :: others.map (need none)

def Fits (gaps needs : List Nat) : Prop := List.Forall₂ (fun gap need => need ≤ gap) gaps needs

/-- Tokens that leave no group open, with steady sets. -/
structure Whole (group : Option CharSet) (tokens : List Token) : Prop where
  closed : left group tokens = none
  steady : ∀ piece ∈ pieces group tokens, Steady piece

/-- Tokens that leave no group open, and match something without a slash. -/
structure Bare (group : Option CharSet) (tokens : List Token) : Prop where
  closed : left group tokens = none
  unmarked : ∀ piece ∈ pieces group tokens, Steady piece → mark piece = false

def Apart (group : Option CharSet) : List (List Token) → Prop
  | [] => True
  | first :: others => Bare group first ∧ ∀ other ∈ others, Bare none other

theorem raised_length (more : Nat) (list : List Nat) : (raised more list).length = list.length := by
  cases list <;> rfl

theorem raised_tail (more : Nat) (list : List Nat) : (raised more list).tail = list.tail := by
  cases list <;> rfl

theorem gaps_full (list : List Piece) : gaps list ≠ [] := by
  induction list with
  | nil => exact List.cons_ne_nil _ _
  | cons piece rest induction =>
      rw [gaps]
      split_ifs
      · exact List.cons_ne_nil _ _
      · obtain ⟨first, others, shape⟩ := List.exists_cons_of_ne_nil induction
        rw [shape]
        exact List.cons_ne_nil _ _

theorem raised_zero (list : List Nat) : raised 0 list = list := by
  cases list with
  | nil => rfl
  | cons first rest => rw [raised, Nat.zero_add]

theorem raised_raised (one two : Nat) (list : List Nat) :
    raised one (raised two list) = raised (one + two) list := by
  cases list with
  | nil => rfl
  | cons first rest => rw [raised, raised, raised, Nat.add_assoc]

theorem gaps_unmarked {front : List Piece} (unmarked : ∀ piece ∈ front, mark piece = false)
    (rest : List Piece) : gaps (front ++ rest) = raised (front.map weight).sum (gaps rest) := by
  induction front with
  | nil => exact (raised_zero _).symm
  | cons piece front induction =>
      rw [List.forall_mem_cons] at unmarked
      rw [List.cons_append, gaps, unmarked.1, induction unmarked.2, raised_raised, List.map_cons,
        List.sum_cons]
      rfl

theorem fits_raised {more : Nat} {gaps needs : List Nat} :
    Fits (raised more gaps) (raised more needs) ↔ Fits gaps needs := by
  cases gaps with
  | nil => cases needs <;> simp [raised, Fits]
  | cons gap gaps => cases needs <;> simp [raised, Fits]

theorem Fits.lowered {more : Nat} {gaps needs : List Nat} (fits : Fits gaps (raised more needs)) :
    Fits gaps needs := by
  cases needs with
  | nil => exact fits
  | cons first rest =>
      cases fits with
      | cons here later => exact .cons (Nat.le_of_add_left_le here) later

theorem needs_length (group : Option CharSet) (comps : List (List Token)) :
    (needs group comps).length = comps.length := by
  cases comps with
  | nil => rfl
  | cons first others => rw [needs, List.length_cons, List.length_map, List.length_cons]

section Steps

variable {group other : Option CharSet} {token : Token} {rest : List Token}

theorem Whole.step (whole : Whole group (token :: rest)) :
    (∀ piece ∈ spelt group token, Steady piece) ∧ Whole (after group token) rest := by
  obtain ⟨closed, steady⟩ := whole
  rw [pieces, List.forall_mem_append] at steady
  exact ⟨steady.1, closed, steady.2⟩

theorem Bare.step (bare : Bare group (token :: rest)) :
    (∀ piece ∈ spelt group token, Steady piece → mark piece = false) ∧ Bare (after group token) rest := by
  obtain ⟨closed, unmarked⟩ := bare
  rw [pieces, List.forall_mem_append] at unmarked
  exact ⟨unmarked.1, closed, unmarked.2⟩

theorem needs_single (narrow : Narrow token) (single : '/' ∉ source token) :
    needs group (components (token :: rest)) =
      raised ((spelt group token).map weight).sum (needs (after group token) (components rest)) := by
  obtain ⟨first, others, shape⟩ := List.exists_cons_of_ne_nil (components_full rest)
  rw [components_single narrow single shape, shape, needs, needs, raised, need, pieces, List.map_append,
    List.sum_append]
  rfl

theorem apart_single (narrow : Narrow token) (single : '/' ∉ source token)
    (apart : Apart group (components (token :: rest))) :
    (∀ piece ∈ spelt group token, Steady piece → mark piece = false) ∧
      Apart (after group token) (components rest) := by
  obtain ⟨first, others, shape⟩ := List.exists_cons_of_ne_nil (components_full rest)
  rw [components_single narrow single shape] at apart
  rw [shape]
  exact ⟨apart.1.step.1, apart.1.step.2, apart.2⟩

theorem apart_slash (apart : Apart group (components (.literal '/' :: rest))) :
    group = none ∧ Apart none (components rest) := by
  obtain ⟨first, others, shape⟩ := List.exists_cons_of_ne_nil (components_full rest)
  rw [components_slash, shape] at apart
  rw [shape]
  exact ⟨apart.1.closed, List.forall_mem_cons.mp apart.2⟩

/-- A pattern read as its components are: as many of them at most, and, where the gaps fit
the needs, no group that holds a slash. -/
structure Together (group : Option CharSet) (tokens : List Token) : Prop where
  short : (gaps (pieces group tokens)).length ≤ (components tokens).length
  shut : Fits (gaps (pieces group tokens)) (needs group (components tokens)) →
    gaps (pieces group tokens) = needs group (components tokens) ∧ Shut tokens

/-- A pattern and its component, one of them with a group open: one slash at most can be made
up for, and then the component needs too much. -/
structure Astray (group other : Option CharSet) (tokens : List Token) : Prop where
  short : (gaps (pieces group tokens)).length ≤ (components tokens).length + 1
  misfits : ¬Fits (gaps (pieces group tokens)).tail (needs other (components tokens))

theorem shut_cons (single : '/' ∉ source token) (shut : Shut rest) : Shut (token :: rest) := by
  intro body member
  rcases List.mem_cons.mp member with rfl | later
  · intro inside
    exact single (by simp [source, inside])
  · exact shut body later

theorem Together.single (narrow : Narrow token) (single : '/' ∉ source token)
    (unmarked : ∀ piece ∈ spelt group token, mark piece = false)
    (together : Together (after group token) rest) : Together group (token :: rest) := by
  obtain ⟨first, others, shape⟩ := List.exists_cons_of_ne_nil (components_full rest)
  constructor
  · rw [pieces, gaps_unmarked unmarked, raised_length, components_single narrow single shape]
    simpa [shape] using together.short
  · rw [pieces, gaps_unmarked unmarked, needs_single narrow single, fits_raised]
    intro fits
    obtain ⟨same, shut⟩ := together.shut fits
    exact ⟨congrArg _ same, shut_cons single shut⟩

theorem Together.slash (together : Together none rest) : Together none (.literal '/' :: rest) := by
  have shape : gaps (pieces none (.literal '/' :: rest)) = 0 :: gaps (pieces none rest) := by
    have marked : mark ⟨.single '/', false⟩ = true := by decide
    change gaps (⟨.single '/', false⟩ :: pieces none rest) = _
    rw [gaps, if_pos marked]
  have form : needs none (components (.literal '/' :: rest)) = 0 :: needs none (components rest) := by
    obtain ⟨first, others, cut⟩ := List.exists_cons_of_ne_nil (components_full rest)
    rw [components_slash, cut]
    rfl
  constructor
  · rw [shape, components_slash]
    exact Nat.succ_le_succ together.short
  · rw [shape, form]
    intro fits
    obtain ⟨same, shut⟩ := together.shut (List.forall₂_cons.mp fits).2
    refine ⟨congrArg _ same, fun body member => shut body ?_⟩
    simpa using member

theorem Astray.single (narrow : Narrow token) (single : '/' ∉ source token)
    (unmarked : ∀ piece ∈ spelt group token, mark piece = false)
    (astray : Astray (after group token) (after other token) rest) :
    Astray group other (token :: rest) := by
  obtain ⟨first, others, shape⟩ := List.exists_cons_of_ne_nil (components_full rest)
  constructor
  · rw [pieces, gaps_unmarked unmarked, raised_length, components_single narrow single shape]
    simpa [shape] using astray.short
  · rw [pieces, gaps_unmarked unmarked, raised_tail, needs_single narrow single]
    exact fun fits => astray.misfits fits.lowered

theorem misfits_short {list : List Piece} {comps : List (List Token)}
    (short : (gaps list).length ≤ comps.length) : ¬Fits (gaps list).tail (needs other comps) := by
  intro fits
  have same := fits.length_eq
  have some := List.length_pos_iff.mpr (gaps_full list)
  rw [List.length_tail, needs_length] at same
  omega

theorem Astray.slash {set : CharSet} (astray : Astray (after (some set) (.literal '/')) none rest) :
    Astray (some set) none (.literal '/' :: rest) := by
  have short : (gaps (pieces (some set) (.literal '/' :: rest))).length ≤
      (components (.literal '/' :: rest)).length := by
    rw [components_slash]
    exact astray.short
  exact ⟨Nat.le_succ_of_le short, misfits_short short⟩

theorem Astray.meets (narrow : Narrow token) (single : '/' ∉ source token)
    (ends : after group token = none) (stops : after other token = none)
    (marked : (∀ piece ∈ spelt group token, mark piece = false) ∨
      ∃ piece, spelt group token = [piece] ∧ mark piece = true ∧ 1 ≤ ((spelt other token).map weight).sum)
    (together : Together none rest) : Astray group other (token :: rest) := by
  obtain ⟨first, others, shape⟩ := List.exists_cons_of_ne_nil (components_full rest)
  have size : (components (token :: rest)).length = (components rest).length := by
    rw [components_single narrow single shape, shape]
    rfl
  rcases marked with unmarked | ⟨piece, spells, marked, some⟩
  · have short : (gaps (pieces group (token :: rest))).length ≤ (components (token :: rest)).length := by
      rw [pieces, gaps_unmarked unmarked, raised_length, size, ends]
      exact together.short
    exact ⟨Nat.le_succ_of_le short, misfits_short short⟩
  · have form : gaps (pieces group (token :: rest)) = 0 :: gaps (pieces none rest) := by
      rw [pieces, spells, ends, List.singleton_append, gaps, if_pos marked]
    constructor
    · rw [form, size]
      exact Nat.succ_le_succ together.short
    · rw [form, List.tail_cons, needs_single narrow single, stops]
      intro fits
      obtain ⟨same, -⟩ := together.shut fits.lowered
      rw [same, shape, needs, raised] at fits
      have least := (List.forall₂_cons.mp fits).1
      omega

theorem need_append (first second : List Token) :
    need group (first ++ second) = need group first + need (left group first) second := by
  rw [need, pieces_append, List.map_append, List.sum_append]
  rfl

/-- A group that holds a slash is one set; it matches the slash alone only outside open
groups, and without an opening bracket. -/
theorem straddle_spelt {body : Text} (bare : ']' ∉ body) (slash : '/' ∈ body) (wide : Wide group)
    (steady : ∀ piece ∈ spelt group (.group body), Steady piece) :
    ∃ piece, spelt group (.group body) = [piece] ∧ after group (.group body) = none ∧
      weight piece = 1 ∧ (mark piece = true → group = none ∧ '[' ∉ body) := by
  cases group with
  | some set =>
      refine ⟨_, rfl, rfl, rfl, fun marked => ?_⟩
      have here := steady _ List.mem_cons_self
      have risen := here.risen
      rw [rising_adding, Bool.and_eq_true] at risen
      have inside : '/' ∈ '[' :: careted body := by
        refine List.mem_cons_of_mem _ ?_
        unfold careted
        split
        · simpa using slash
        · exact slash
      rw [closed_unmarked wide here (covers_text risen.2 (by decide) inside)] at marked
      cases marked
  | none =>
      have inside := mem_members (by decide) slash
      have some : members body ≠ [] := List.ne_nil_of_mem inside
      rw [spelt, if_neg some] at steady
      rw [spelt, after, if_neg some, if_neg some]
      refine ⟨_, rfl, rfl, rfl, fun marked => ⟨rfl, fun bracket => ?_⟩⟩
      have here := steady _ List.mem_cons_self
      rw [here.covering '[' (by decide) (covers_text here.risen (by decide)
          (mem_members (by decide) bracket))
        (covers_text here.risen (by decide) inside)] at marked
      cases marked

theorem straddle {body : Text} (bare : ']' ∉ body) (slash : '/' ∈ body) (wide : Wide group)
    (steady : ∀ piece ∈ spelt group (.group body), Steady piece)
    (apart : Apart other (components (.group body :: rest)))
    (together : Apart none (components rest) → Together none rest)
    (astray : ∀ set, Apart (some set) (components rest) → Astray none (some set) rest) :
    (gaps (pieces group (.group body :: rest))).length ≤ (components (.group body :: rest)).length ∧
      (group = other → ¬Fits (gaps (pieces group (.group body :: rest)))
        (needs other (components (.group body :: rest)))) := by
  obtain ⟨piece, spells, ends, once, alone⟩ := straddle_spelt bare slash wide steady
  obtain ⟨front, middle, last, cut, opened⟩ := parted_group bare slash
  obtain ⟨first, others, shape⟩ := List.exists_cons_of_ne_nil (components_full rest)
  have whole : components (.group body :: rest) =
      (.literal '[' :: front) :: (middle ++ (last ++ first) :: others) := by
    rw [components, cut, shape]
    exact glued_behind ((.literal '[' :: front) :: middle) last first others
  have size : (components (.group body :: rest)).length = 1 + middle.length + (components rest).length := by
    rw [whole, shape]
    simp
    omega
  have within := apart
  rw [whole] at within
  obtain ⟨-, each⟩ := within
  have joint := each (last ++ first) (by simp)
  have behind : Apart (left none last) (components rest) := by
    rw [shape]
    refine ⟨⟨?_, fun piece member => joint.unmarked piece ?_⟩,
      fun other member => each other (by simp [member])⟩
    · rw [← left_append]
      exact joint.closed
    · rw [pieces_append]
      exact List.mem_append_right _ member
  have form : needs other (components (.group body :: rest)) = need other (.literal '[' :: front) ::
      (middle.map (need none) ++ raised (need none last) (needs (left none last) (components rest))) := by
    rw [whole, shape, needs, List.map_append, List.map_cons, need_append]
    rfl
  have read : pieces group (.group body :: rest) = piece :: pieces none rest := by
    rw [pieces, spells, ends]
    rfl
  rw [read, gaps, size, form]
  have sizes {list : List Nat} {next : Option CharSet} (fits : Fits list
      (need other (.literal '[' :: front) ::
        (middle.map (need none) ++ raised (need none last) (needs next (components rest))))) :
      list.length = 1 + middle.length + (components rest).length := by
    rw [fits.length_eq, List.length_cons, List.length_append, List.length_map, raised_length, needs_length]
    omega
  cases next : left none last with
  | none =>
      rw [next] at behind
      have short := (together behind).short
      split_ifs with marked
      · rw [List.length_cons]
        refine ⟨by omega, fun same fits => ?_⟩
        obtain ⟨rfl, -⟩ := alone marked
        rw [← same] at fits
        have least := (List.forall₂_cons.mp fits).1
        rw [need, pieces] at least
        simp [spelt, weight] at least
      · rw [raised_length]
        refine ⟨by omega, fun same fits => ?_⟩
        have equal := sizes fits
        rw [raised_length] at equal
        omega
  | some set =>
      rw [next] at behind
      have bracket : '[' ∈ body := opened (by rw [next]; exact Option.some_ne_none set)
      have unmarked : ¬mark piece = true := fun marked => (alone marked).2 bracket
      obtain ⟨short, misfits⟩ := astray set behind
      rw [if_neg unmarked, raised_length]
      refine ⟨by omega, fun same fits => ?_⟩
      have equal := sizes fits
      rw [raised_length] at equal
      have few : middle = [] := List.length_eq_zero_iff.mp (by omega)
      rw [few, List.map_nil, List.nil_append] at fits
      apply misfits
      rw [← raised_tail (weight piece)]
      obtain ⟨gap, others, shape⟩ := List.exists_cons_of_ne_nil (gaps_full (pieces none rest))
      rw [shape] at fits ⊢
      exact Fits.lowered (List.forall₂_cons.mp fits).2

/-- One token without a slash, where one of both has a group open: it still is so, or both
are outside groups. -/
theorem astray_token (narrow : Narrow token) (single : '/' ∉ source token) (wide : Wide group)
    (steady : ∀ piece ∈ spelt group token, Steady piece) (differs : group.isSome ≠ other.isSome) :
    ((after group token).isSome ≠ (after other token).isSome ∧
        ∀ piece ∈ spelt group token, mark piece = false) ∨
      after group token = none ∧ after other token = none ∧
        ((∀ piece ∈ spelt group token, mark piece = false) ∨
          ∃ piece, spelt group token = [piece] ∧ mark piece = true ∧
            1 ≤ ((spelt other token).map weight).sum) := by
  have wildcard : covers opening '/' = true := by decide
  cases group with
  | none =>
      obtain ⟨set, rfl⟩ : ∃ set, other = some set := by
        cases other with
        | none => exact absurd rfl differs
        | some set => exact ⟨set, rfl⟩
      cases token with
      | deep | any => exact narrow.elim
      | star | one => exact .inr ⟨rfl, rfl, .inl (by decide)⟩
      | literal char =>
          refine .inl ⟨Bool.false_ne_true, List.forall_mem_singleton.mpr ?_⟩
          rw [mark, Bool.not_false, Bool.true_and, ← Bool.not_eq_true, CharSet.contains_single]
          exact fun same => single (by rw [same]; exact List.mem_singleton_self _)
      | group body =>
          by_cases empty : members body = []
          · left
            rw [after, spelt, if_pos empty, if_pos empty]
            exact ⟨Bool.false_ne_true.symm, List.forall_mem_nil _⟩
          · right
            rw [after, spelt, if_neg empty, if_neg empty]
            refine ⟨rfl, rfl, ?_⟩
            cases marked : mark ⟨⟨negates body, ranges (members body)⟩, false⟩ with
            | false => exact .inl (List.forall_mem_singleton.mpr marked)
            | true => exact .inr ⟨_, rfl, marked, Nat.le_refl 1⟩
  | some set =>
      obtain rfl : other = none := by
        cases other with
        | none => rfl
        | some set => exact absurd rfl differs
      cases token with
      | deep | any => exact narrow.elim
      | star | one =>
          refine .inr ⟨rfl, rfl, .inl (List.forall_mem_singleton.mpr ?_)⟩
          exact closed_unmarked wide (steady _ List.mem_cons_self) wildcard
      | literal char => exact .inl ⟨Bool.false_ne_true.symm, List.forall_mem_nil _⟩
      | group body =>
          have here := steady _ List.mem_cons_self
          by_cases empty : members body = []
          · left
            rw [after, if_pos empty]
            exact ⟨Bool.false_ne_true, List.forall_mem_singleton.mpr (empty_unmarked wide empty here)⟩
          · right
            rw [after, if_neg empty]
            refine ⟨rfl, rfl, ?_⟩
            cases marked : mark ⟨adding set (ranges ('[' :: careted body)), false⟩ with
            | false => exact .inl (List.forall_mem_singleton.mpr marked)
            | true =>
                refine .inr ⟨_, rfl, marked, ?_⟩
                rw [spelt, if_neg empty]
                exact Nat.le_refl 1

end Steps

/-- A pattern whose gaps fit the needs of its components has no group that holds a slash. -/
theorem strays {tokens : List Token} (narrow : ∀ token ∈ tokens, Narrow token)
    {group other : Option CharSet} (wide : Wide group) (whole : Whole group tokens)
    (apart : Apart other (components tokens)) :
    (group = other → Together group tokens) ∧
      (group.isSome ≠ other.isSome → Astray group other tokens) := by
  induction tokens generalizing group other with
  | nil =>
      obtain rfl : group = none := whole.closed
      obtain rfl : other = none := apart.1.closed
      exact ⟨fun _ => ⟨Nat.le_refl 1, fun _ => ⟨rfl, nofun⟩⟩, fun differs => absurd rfl differs⟩
  | cons token rest induction =>
      rw [List.forall_mem_cons] at narrow
      obtain ⟨steady, later⟩ := whole.step
      have below (next : Option CharSet) (behind : Apart next (components rest)) :=
        induction narrow.2 (wide_after wide narrow.1) later behind
      by_cases slash : '/' ∈ source token
      · rcases slash_token narrow.1 slash with rfl | ⟨body, rfl, inside⟩
        · obtain ⟨rfl, behind⟩ := apart_slash apart
          cases group with
          | none => exact ⟨fun _ => ((below none behind).1 rfl).slash, fun differs => absurd rfl differs⟩
          | some set => exact ⟨nofun, fun _ => ((below none behind).2 nofun).slash⟩
        · obtain ⟨piece, -, ends, -⟩ := straddle_spelt narrow.1 inside wide steady
          rw [ends] at below
          obtain ⟨short, misfits⟩ := straddle narrow.1 inside wide steady apart
            (fun behind => (below none behind).1 rfl) (fun set behind => (below (some set) behind).2 nofun)
          exact ⟨fun same => ⟨short, fun fits => absurd fits (same ▸ misfits same)⟩,
            fun _ => ⟨Nat.le_succ_of_le short, misfits_short short⟩⟩
      · obtain ⟨unmarked, behind⟩ := apart_single narrow.1 slash apart
        constructor
        · rintro rfl
          exact Together.single narrow.1 slash
            (fun piece member => unmarked piece member (steady piece member))
            ((below _ behind).1 rfl)
        · intro differs
          rcases astray_token narrow.1 slash wide steady differs with ⟨still, bare⟩ | ⟨ends, stops, marked⟩
          · exact Astray.single narrow.1 slash bare ((below _ behind).2 still)
          · rw [stops] at behind
            rw [ends] at below
            exact Astray.meets narrow.1 slash ends stops marked ((below none behind).1 rfl)

end XRootDClient.Glob.Brackets

import Mathlib.Data.List.Basic
import XRootDClient.Lib.Text

/-!
Paths as `posixpath` reads them: text cut at slashes. `parts` is what a path comes to
once empty and single-dot components are dropped and double dots are climbed; a
proper name adds itself to it and nothing else.
-/

set_option autoImplicit false

namespace XRootDClient.Lib.Posix

def slash : Char := '/'

def dot : Text := ['.']

def dots : Text := ['.', '.']

/-- A single path component that stays where it is. -/
structure Proper (name : Text) : Prop where
  some : name ≠ []
  single : slash ∉ name
  notDot : name ≠ dot
  notDots : name ≠ dots

instance (name : Text) : Decidable (Proper name) :=
  decidable_of_iff (name ≠ [] ∧ slash ∉ name ∧ name ≠ dot ∧ name ≠ dots)
    ⟨fun ⟨one, two, three, four⟩ => ⟨one, two, three, four⟩,
      fun proper => ⟨proper.some, proper.single, proper.notDot, proper.notDots⟩⟩

def climb (rooted : Bool) (done : List Text) (part : Text) : List Text :=
  if part = [] ∨ part = dot then done
  else if part ≠ dots ∨ (rooted = false ∧ done = []) ∨ done.getLast? = some dots then done ++ [part]
  else done.dropLast

def parts (rooted : Bool) (path : Text) : List Text := (path.splitOn slash).foldl (climb rooted) []

/-- The slashes kept at the front of a path: two are kept, three are one. -/
def lead (path : Text) : Text :=
  match (path.takeWhile (· = slash)).length with
  | 0 => []
  | 2 => [slash, slash]
  | _ => [slash]

def render (front : Text) (names : List Text) : Text := front ++ [slash].intercalate names

def normpath (path : Text) : Text :=
  let text := render (lead path) (parts (lead path ≠ []) path)
  if text = [] then dot else text

def join (head tail : Text) : Text :=
  if tail.head? = some slash then tail
  else if head = [] ∨ head.getLast? = some slash then head ++ tail
  else head ++ slash :: tail

def rstrip (path : Text) : Text := (path.reverse.dropWhile (· = slash)).reverse

def lstrip (path : Text) : Text := path.dropWhile (· = slash)

/-- `posixpath.basename`: what follows the last slash. -/
def basename (path : Text) : Text := (path.reverse.takeWhile (· ≠ slash)).reverse

/-- `posixpath.dirname`: what precedes it, without the slashes at its end unless it has
nothing else. -/
def dirname (path : Text) : Text :=
  let head := (path.reverse.dropWhile (· ≠ slash)).reverse
  if head.all (· = slash) then head else rstrip head

section Components

variable {rooted : Bool} {name : Text} {names done : List Text}

theorem climb_proper (proper : Proper name) : climb rooted done name = done ++ [name] := by
  rw [climb, if_neg (by simp [proper.some, proper.notDot]), if_pos (.inl proper.notDots)]

theorem climb_all (proper : ∀ name ∈ names, Proper name) :
    names.foldl (climb rooted) done = done ++ names := by
  induction names generalizing done with
  | nil => rw [List.foldl_nil, List.append_nil]
  | cons name rest induction =>
      rw [List.foldl_cons, climb_proper (proper name List.mem_cons_self),
        induction fun other member => proper other (List.mem_cons_of_mem _ member),
        List.append_assoc, List.singleton_append]

theorem climb_keeps (part : Text) (single : slash ∉ part) (proper : ∀ name ∈ done, Proper name) :
    ∀ name ∈ climb true done part, Proper name := by
  unfold climb
  split_ifs with skipped added
  · exact proper
  · intro name member
    rcases List.mem_append.mp member with early | last
    · exact proper name early
    · rw [List.mem_singleton.mp last]
      rw [not_or] at skipped
      refine ⟨skipped.1, single, skipped.2, ?_⟩
      rcases added with other | ⟨no, -⟩ | again
      · exact other
      · cases no
      · exact absurd rfl (proper dots (List.mem_of_getLast? again)).notDots
  · exact fun name member => proper name (List.dropLast_subset _ member)

theorem split_single (path : Text) : ∀ part ∈ path.splitOn slash, slash ∉ part := by
  induction path with
  | nil => simp
  | cons char rest induction =>
      rw [List.splitOn_cons_eq_if_modifyHead]
      split_ifs with cut
      · intro part member
        rcases List.mem_cons.mp member with rfl | later
        · exact List.not_mem_nil
        · exact induction part later
      · have other : slash ≠ char := fun same => cut (by simp [same])
        generalize rest.splitOn slash = pieces at induction ⊢
        cases pieces with
        | nil => simp
        | cons first others =>
            intro part member
            rcases List.mem_cons.mp member with rfl | later
            · rw [List.mem_cons, not_or]
              exact ⟨other, induction first List.mem_cons_self⟩
            · exact induction part (List.mem_cons_of_mem _ later)

theorem mem_intersperse {pieces : List Text} {part mark : Text} (piece : part ∈ pieces) :
    part ∈ pieces.intersperse mark := by
  induction pieces with
  | nil => cases piece
  | cons first rest induction =>
      cases rest with
      | nil => exact piece
      | cons second others =>
          rw [List.intersperse_cons_cons]
          rcases List.mem_cons.mp piece with rfl | later
          · exact List.mem_cons_self
          · exact List.mem_cons_of_mem _ (List.mem_cons_of_mem _ (induction later))

theorem split_mem {path part : Text} (piece : part ∈ path.splitOn slash) {char : Char}
    (member : char ∈ part) : char ∈ path := by
  rw [← @List.intercalate_splitOn _ path _ _ slash, List.intercalate]
  exact List.mem_flatten.mpr ⟨part, mem_intersperse piece, member⟩

theorem parts_all {path : Text} {Holds : Text → Prop}
    (step : ∀ done, ∀ part ∈ path.splitOn slash, (∀ name ∈ done, Holds name) →
      ∀ name ∈ climb rooted done part, Holds name) : ∀ name ∈ parts rooted path, Holds name := by
  rw [parts]
  generalize path.splitOn slash = pieces at step ⊢
  have all : ∀ done : List Text, (∀ name ∈ done, Holds name) →
      ∀ name ∈ pieces.foldl (climb rooted) done, Holds name := by
    induction pieces with
    | nil => exact fun done holds => holds
    | cons piece rest induction =>
        intro done holds
        rw [List.foldl_cons]
        exact induction (fun done part member => step done part (List.mem_cons_of_mem _ member)) _
          (step done piece List.mem_cons_self holds)
  exact all [] fun name member => absurd member List.not_mem_nil

theorem parts_proper (path : Text) : ∀ name ∈ parts true path, Proper name :=
  parts_all fun _ part member => climb_keeps part (split_single path part member)

theorem parts_mem {path : Text} {char : Char} (absent : char ∉ path) :
    ∀ name ∈ parts rooted path, char ∉ name := by
  refine parts_all fun done part member holds => ?_
  unfold climb
  split_ifs
  · exact holds
  · intro name listed
    rcases List.mem_append.mp listed with early | last
    · exact holds name early
    · rw [List.mem_singleton.mp last]
      exact fun inside => absent (split_mem member inside)
  · exact fun name listed => holds name (List.dropLast_subset _ listed)

theorem parts_append (head tail : Text) :
    parts rooted (head ++ slash :: tail) =
      (tail.splitOn slash).foldl (climb rooted) (parts rooted head) := by
  rw [parts, List.splitOn_append_cons_self, List.foldl_append]
  rfl

theorem parts_slash (path : Text) : parts rooted (slash :: path) = parts rooted path :=
  parts_append [] path

theorem climb_split (proper : ∀ name ∈ names, Proper name) :
    (([slash].intercalate names).splitOn slash).foldl (climb rooted) done = done ++ names := by
  cases names with
  | nil =>
      rw [List.append_nil]
      rfl
  | cons name rest =>
      rw [List.splitOn_intercalate slash (fun part member => (proper part member).single)
        (List.cons_ne_nil _ _)]
      exact climb_all proper

end Components

def Front (front : Text) : Prop := front = [slash] ∨ front = [slash, slash]

section Rooted

variable {front name : Text} {names : List Text}

theorem parts_render (rooted : Bool) (known : Front front) (proper : ∀ name ∈ names, Proper name) :
    parts rooted (render front names) = names := by
  have plain : parts rooted ([slash].intercalate names) = names := by
    rw [parts, climb_split proper, List.nil_append]
  rcases known with rfl | rfl
  · exact (parts_slash _).trans plain
  · exact (parts_slash _).trans ((parts_slash _).trans plain)

theorem intercalate_head (proper : ∀ name ∈ names, Proper name) (rest : Text) :
    [slash].intercalate names ≠ slash :: rest := by
  cases names with
  | nil => simp
  | cons name others =>
      have known := proper name List.mem_cons_self
      obtain ⟨char, more, rfl⟩ := List.exists_cons_of_ne_nil known.some
      intro same
      have head := congrArg List.head? same
      cases others with
      | nil =>
          simp at head
          exact known.single (head ▸ List.mem_cons_self)
      | cons first others =>
          simp at head
          exact known.single (head ▸ List.mem_cons_self)

theorem lead_render (known : Front front) (proper : ∀ name ∈ names, Proper name) :
    lead (render front names) = front := by
  have plain : ([slash].intercalate names).takeWhile (· = slash) = [] := by
    have starts := intercalate_head proper
    generalize [slash].intercalate names = text at starts
    cases text with
    | nil => rfl
    | cons char rest =>
        rw [List.takeWhile_cons, if_neg]
        simp only [decide_eq_true_eq]
        rintro rfl
        exact starts rest rfl
  rcases known with rfl | rfl
  · simp [lead, render, plain]
  · simp [lead, render, plain]

theorem normpath_render (known : Front front) (proper : ∀ name ∈ names, Proper name) :
    normpath (render front names) = render front names := by
  have some : render front names ≠ [] := by
    rcases known with rfl | rfl <;> exact List.cons_ne_nil _ _
  rw [normpath, lead_render known proper, parts_render _ known proper]
  exact if_neg some

theorem intercalate_concat (some : names ≠ []) :
    [slash].intercalate (names ++ [name]) = [slash].intercalate names ++ slash :: name := by
  induction names with
  | nil => exact absurd rfl some
  | cons first rest induction =>
      cases rest with
      | nil => simp
      | cons second others =>
          rw [List.cons_append, List.intercalate_cons_of_ne_nil (by simp),
            induction (List.cons_ne_nil _ _), List.intercalate_cons_of_ne_nil (List.cons_ne_nil _ _)]
          simp

theorem intercalate_last (proper : ∀ name ∈ names, Proper name) (some : names ≠ []) :
    ∃ rest char, [slash].intercalate names = rest ++ [char] ∧ char ≠ slash := by
  obtain ⟨others, last, rfl⟩ := (List.eq_nil_or_concat names).resolve_left some
  rw [List.concat_eq_append] at proper ⊢
  have known := proper last (by simp)
  obtain ⟨more, char, rfl⟩ := (List.eq_nil_or_concat last).resolve_left known.some
  rw [List.concat_eq_append] at known ⊢
  have ends : char ≠ slash := fun same => known.single (by simp [same])
  by_cases alone : others = []
  · subst alone
    exact ⟨more, char, by simp, ends⟩
  · rw [intercalate_concat alone]
    exact ⟨[slash].intercalate others ++ slash :: more, char, by simp, ends⟩

theorem join_render (known : Front front) (proper : ∀ name ∈ names, Proper name)
    (next_ : Proper name) : join (render front names) name = render front (names ++ [name]) := by
  have starts : name.head? ≠ some slash := fun same => next_.single (List.mem_of_head? same)
  rw [join, if_neg starts]
  by_cases none : names = []
  · subst none
    have ends : (render front []).getLast? = some slash := by
      rcases known with rfl | rfl <;> rfl
    rw [if_pos (.inr ends)]
    simp [render]
  · obtain ⟨rest, char, shape, other⟩ := intercalate_last proper none
    have ends : ¬(render front names = [] ∨ (render front names).getLast? = some slash) := by
      rw [render, shape, ← List.append_assoc, List.getLast?_concat]
      simp [other]
    rw [if_neg ends, render, render, intercalate_concat none, List.append_assoc]

theorem normpath_rooted {path : Text} (rooted : path.head? = some slash) :
    Front (lead path) ∧ normpath path = render (lead path) (parts true path) := by
  obtain ⟨rest, rfl⟩ : ∃ rest, path = slash :: rest := by
    cases path with
    | nil => cases rooted
    | cons char rest =>
        cases rooted
        exact ⟨rest, rfl⟩
  have front : Front (lead (slash :: rest)) := by
    rw [lead]
    split
    · rename_i none
      simp at none
    · exact .inr rfl
    · exact .inl rfl
  have some : lead (slash :: rest) ≠ [] := by
    rcases front with one | two
    · rw [one]
      exact List.cons_ne_nil _ _
    · rw [two]
      exact List.cons_ne_nil _ _
  refine ⟨front, ?_⟩
  rw [normpath, decide_eq_true some]
  exact if_neg fun empty => some (List.append_eq_nil_iff.mp empty).1

theorem normpath_trailing (proper : ∀ name ∈ names, Proper name) (some : names ≠ []) :
    normpath (render [slash] names ++ [slash]) = render [slash] names := by
  obtain ⟨-, norm⟩ := @normpath_rooted (render [slash] names ++ [slash]) rfl
  have same : parts true (render [slash] names ++ [slash]) = names :=
    (parts_append _ []).trans (parts_render true (.inl rfl) proper)
  have one : lead (render [slash] names ++ [slash]) = [slash] := by
    have starts := intercalate_head proper
    obtain ⟨rest, char, ends, -⟩ := intercalate_last proper some
    rw [render]
    generalize [slash].intercalate names = text at starts ends
    cases text with
    | nil => simp at ends
    | cons first others =>
        have other : first ≠ slash := fun slashed => starts others (by rw [slashed])
        simp [lead, other]
  rw [norm, same, one]

end Rooted

end XRootDClient.Lib.Posix

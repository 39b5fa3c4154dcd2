import XRootDClient.Client.Groups

/-!
# Components of a pattern

A pattern is cut at its slashes, and each component is scanned alone. What is a group in
the pattern is one in its component as well, unless it holds a slash: then it is cut, and
its bracket is a literal where it begins and closes nothing, or a group of that component
alone, where it ends.
-/

set_option autoImplicit false

namespace XRootDClient.Glob.Brackets

open Lib

def source : Token → Text
  | .deep => str "**/"
  | .any => str "**"
  | .star => ['*']
  | .one => ['?']
  | .group body => '[' :: body ++ [']']
  | .literal char => [char]

theorem shallow_tail {char : Char} {rest : Text} (shallow : doubleStar (char :: rest) = false) :
    doubleStar rest = false := by
  rw [doubleStar.eq_def] at shallow
  split at shallow
  · cases shallow
  · next same =>
      cases same
      exact shallow
  · next same => cases same

theorem shallow_front {front : Text} {rest : Text} (shallow : doubleStar (front ++ rest) = false) :
    doubleStar front = false := by
  induction front with
  | nil => rfl
  | cons char front induction =>
      have below := induction (shallow_tail shallow)
      rw [doubleStar.eq_def]
      split
      · next same =>
          cases same
          cases shallow
      · next same =>
          cases same
          exact below
      · rfl

theorem shallow_back {front : Text} {rest : Text} (shallow : doubleStar (front ++ rest) = false) :
    doubleStar rest = false := by
  induction front with
  | nil => exact shallow
  | cons char front induction => exact induction (shallow_tail shallow)

theorem scan_shallow {char : Char} {rest : Text} (shallow : doubleStar (char :: rest) = false) :
    scan 0 (char :: rest) =
      if char = '*' then .star :: scan 0 rest
      else if char = '?' then .one :: scan 0 rest
      else if char = '[' then
        if ']' ∈ rest then
          .group (rest.takeWhile (· ≠ ']')) :: scan ((rest.takeWhile (· ≠ ']')).length + 1) rest
        else .literal '[' :: scan 0 rest
      else .literal char :: scan 0 rest := by
  have alone : ¬(char = '*' ∧ rest.head? = some '*') := by
    rintro ⟨rfl, second⟩
    cases rest with
    | nil => cases second
    | cons other more =>
        cases second
        cases shallow
  have apart : ¬(char = '*' ∧ rest.take 2 = ['*', '/']) := by
    rintro ⟨star, both⟩
    apply alone
    cases rest with
    | nil => cases both
    | cons other more => exact ⟨star, congrArg some (List.cons.inj both).1⟩
  rw [scan, if_neg apart, if_neg alone]

theorem scan_skip (skip : Nat) (text : Text) : scan skip text = scan 0 (text.drop skip) := by
  induction text generalizing skip with
  | nil => simp [scan]
  | cons char rest induction =>
      cases skip with
      | zero => rfl
      | succ skip => exact induction skip

theorem scan_group {body : Text} (rest : Text) (bare : ']' ∉ body) :
    scan 0 ('[' :: body ++ ']' :: rest) = .group body :: scan 0 rest := by
  have solid : ∀ char ∈ body, decide (char ≠ ']') = true := fun char member =>
    decide_eq_true fun same => bare (same ▸ member)
  have cut : (body ++ ']' :: rest).takeWhile (· ≠ ']') = body := by
    rw [List.takeWhile_append_of_pos solid]
    simp
  have apart : ('[' : Char) ≠ '*' := by decide
  rw [List.cons_append, scan, if_neg fun both => apart both.1, if_neg fun both => apart both.1,
    if_neg apart, if_neg (by decide), if_pos rfl, if_pos (by simp), cut]
  have skipped : scan (body.length + 1) (body ++ ']' :: rest) = scan 0 rest := by
    rw [scan_skip, List.append_cons, List.drop_left' (by simp)]
  exact congrArg (Token.group body :: ·) skipped

theorem scan_unclosed {rest : Text} (bare : ']' ∉ rest) :
    scan 0 ('[' :: rest) = .literal '[' :: scan 0 rest := by
  have apart : ('[' : Char) ≠ '*' := by decide
  rw [scan, if_neg fun both => apart both.1, if_neg fun both => apart both.1, if_neg apart,
    if_neg (by decide), if_pos rfl, if_neg bare]

theorem scan_first {pattern : Text} (full : pattern ≠ []) (shallow : doubleStar pattern = false) :
    ∃ token rest, pattern = source token ++ rest ∧ scan 0 pattern = token :: scan 0 rest ∧
      Narrow token ∧ (token = .literal '[' → ']' ∉ rest) := by
  obtain ⟨char, rest, rfl⟩ := List.exists_cons_of_ne_nil full
  by_cases opens : char = '[' ∧ ']' ∈ rest
  · obtain ⟨rfl, inside⟩ := opens
    obtain ⟨body, more, rfl, bare⟩ := List.eq_append_cons_of_mem inside
    exact ⟨.group body, more, by simp [source], scan_group more bare, bare, nofun⟩
  · have cut := scan_shallow shallow
    split_ifs at cut with star one bracket closed
    · exact ⟨.star, rest, by rw [star]; rfl, cut, trivial, nofun⟩
    · exact ⟨.one, rest, by rw [one]; rfl, cut, trivial, nofun⟩
    · exact absurd ⟨bracket, closed⟩ opens
    · subst bracket
      exact ⟨.literal '[', rest, rfl, cut, ⟨star, one⟩, fun _ => closed⟩
    · exact ⟨.literal char, rest, rfl, cut, ⟨star, one⟩,
        fun same => absurd (Token.literal.inj same) bracket⟩

theorem scan_induction {Holds : Text → Prop} (empty : Holds [])
    (step : ∀ token rest, doubleStar (source token ++ rest) = false →
      scan 0 (source token ++ rest) = token :: scan 0 rest → Narrow token →
      (token = .literal '[' → ']' ∉ rest) → Holds rest → Holds (source token ++ rest))
    {pattern : Text} (shallow : doubleStar pattern = false) : Holds pattern := by
  by_cases full : pattern = []
  · rw [full]
    exact empty
  · obtain ⟨token, rest, rfl, scanned, narrow, unclosed⟩ := scan_first full shallow
    have shorter : rest.length < (source token ++ rest).length := by
      rw [List.length_append]
      have some : 0 < (source token).length := by
        cases token <;> simp [source, str]
      omega
    exact step token rest shallow scanned narrow unclosed (scan_induction empty step (shallow_back shallow))
termination_by pattern.length

theorem scan_narrow {pattern : Text} (shallow : doubleStar pattern = false) :
    ∀ token ∈ scan 0 pattern, Narrow token := by
  refine @scan_induction (fun pattern => ∀ token ∈ scan 0 pattern, Narrow token) ?_ ?_ pattern shallow
  · exact nofun
  · intro token rest _ scanned narrow _ later
    rw [scanned]
    exact List.forall_mem_cons.mpr ⟨narrow, later⟩

section Glued

variable {α β : Type}

/-- Two cut lists as one: the end of the first is the front of the second. -/
def glued : List (List α) → List (List α) → List (List α)
  | [], second => second
  | [last], [] => [last]
  | [last], first :: rest => (last ++ first) :: rest
  | part :: next :: rest, second => part :: glued (next :: rest) second

theorem glued_behind (front : List (List α)) (last first : List α) (rest : List (List α)) :
    glued (front ++ [last]) (first :: rest) = front ++ (last ++ first) :: rest := by
  induction front with
  | nil => rfl
  | cons part front induction =>
      cases front with
      | nil => rfl
      | cons next front =>
          change part :: glued (next :: front ++ [last]) (first :: rest) = _
          rw [induction]
          rfl

theorem split_append [DecidableEq α] (mark : α) (first second : List α) :
    (first ++ second).splitOn mark = glued (first.splitOn mark) (second.splitOn mark) := by
  induction first with
  | nil =>
      rw [List.nil_append, List.splitOn_nil]
      obtain ⟨head, rest, shape⟩ := List.exists_cons_of_ne_nil (List.splitOn_ne_nil mark second)
      rw [shape]
      rfl
  | cons item first induction =>
      rw [List.cons_append, List.splitOn_cons_eq_if_modifyHead,
        List.splitOn_cons_eq_if_modifyHead, induction]
      obtain ⟨head, rest, shape⟩ := List.exists_cons_of_ne_nil (List.splitOn_ne_nil mark first)
      obtain ⟨other, more, form⟩ := List.exists_cons_of_ne_nil (List.splitOn_ne_nil mark second)
      rw [shape, form]
      split_ifs
      · rfl
      · cases rest <;> rfl

theorem split_front [DecidableEq α] {mark : α} {text first : List α} {others : List (List α)}
    (cut : text.splitOn mark = first :: others) : ∃ behind, text = first ++ behind := by
  have whole : [mark].intercalate (text.splitOn mark) = text := List.intercalate_splitOn mark
  rw [cut] at whole
  cases others with
  | nil => exact ⟨[], by simpa using whole.symm⟩
  | cons next more =>
      rw [List.intercalate_cons_of_ne_nil (List.cons_ne_nil _ _), List.append_assoc] at whole
      exact ⟨_, whole.symm⟩

theorem split_back [DecidableEq α] {mark : α} {text last : List α} {front : List (List α)}
    (cut : text.splitOn mark = front ++ [last]) : ∃ before, text = before ++ last := by
  have whole : [mark].intercalate (text.splitOn mark) = text := List.intercalate_splitOn mark
  rw [cut] at whole
  clear cut
  induction front generalizing text with
  | nil => exact ⟨[], by simpa using whole.symm⟩
  | cons part front induction =>
      rw [List.cons_append, List.intercalate_cons_of_ne_nil (by simp)] at whole
      obtain ⟨before, split⟩ := induction rfl
      exact ⟨part ++ [mark] ++ before, by rw [← whole, split, ← List.append_assoc]⟩

end Glued

def parted (token : Token) : List (List Token) := ((source token).splitOn '/').map (scan 0)

/-- What the components of a text are scanned into, from its tokens. -/
def components : List Token → List (List Token)
  | [] => [[]]
  | token :: rest => glued (parted token) (components rest)

theorem scan_bracket {front behind : Text} {skip : Nat} (inner : skip ≤ front.length + 1)
    (bare : ']' ∉ front) (shallow : doubleStar (front ++ ']' :: behind) = false) :
    scan skip (front ++ ']' :: behind) = scan skip (front ++ [']']) ++ scan 0 behind := by
  induction front generalizing skip with
  | nil =>
      rcases Nat.le_one_iff_eq_zero_or_eq_one.mp inner with rfl | rfl
      · exact scan_literal (by decide) behind
      · rfl
  | cons char rest induction =>
      rw [List.mem_cons, not_or] at bare
      have below := shallow_tail shallow
      cases skip with
      | succ skip => exact induction (Nat.le_of_succ_le_succ inner) bare.2 below
      | zero =>
          have zero := induction (Nat.zero_le _) bare.2 below
          have past := induction (Nat.le_refl _) bare.2 below
          have early : doubleStar (char :: rest ++ [']']) = false := by
            apply @shallow_front _ behind
            simpa using shallow
          have solid : ∀ char ∈ rest, decide (char ≠ ']') = true := fun char member =>
            decide_eq_true fun same => bare.2 (same ▸ member)
          have cut (tail : Text) : (rest ++ ']' :: tail).takeWhile (· ≠ ']') = rest := by
            rw [List.takeWhile_append_of_pos solid]
            simp
          have inside (tail : Text) : ']' ∈ rest ++ ']' :: tail :=
            List.mem_append_right _ List.mem_cons_self
          rw [List.cons_append] at shallow early ⊢
          rw [scan_shallow shallow, List.cons_append, scan_shallow early, cut, cut, if_pos (inside _),
            if_pos (inside _), past, zero]
          split_ifs <;> rfl

theorem split_closed (text : Text) :
    ∃ front last, (text ++ [']']).splitOn '/' = front ++ [last ++ [']']] ∧
      ∃ before, text = before ++ last := by
  obtain ⟨front, last, cut⟩ := (List.eq_nil_or_concat' _).resolve_left (List.splitOn_ne_nil '/' text)
  refine ⟨front, last, ?_, split_back cut⟩
  rw [split_append, cut]
  exact glued_behind front last [']'] []

theorem scan_glued {token : Token} {rest : Text} (narrow : Narrow token)
    (unclosed : token = .literal '[' → ']' ∉ rest)
    (shallow : doubleStar (source token ++ rest) = false) :
    ∃ front last, (source token).splitOn '/' = front ++ [last] ∧
      ∀ first behind, rest = first ++ behind → scan 0 (last ++ first) = scan 0 last ++ scan 0 first := by
  have early (first behind : Text) (split : rest = first ++ behind) :
      doubleStar (source token ++ first) = false := by
    rw [split, ← List.append_assoc] at shallow
    exact shallow_front shallow
  cases token with
  | deep | any => exact narrow.elim
  | star | one =>
      refine ⟨[], _, rfl, fun first behind split => ?_⟩
      have shallow := early first behind split
      exact scan_shallow shallow
  | literal char =>
      by_cases slash : char = '/'
      · rw [slash]
        exact ⟨[[]], [], rfl, fun _ _ _ => rfl⟩
      · refine ⟨[], [char], List.splitOn_eq_singleton (by simpa [source] using Ne.symm slash), ?_⟩
        intro first behind split
        have shallow := early first behind split
        have alone : doubleStar [char] = false := shallow_front shallow
        have outside : char = '[' → ']' ∉ first := by
          rintro rfl inside
          exact unclosed rfl (split ▸ List.mem_append_left behind inside)
        rw [scan_shallow alone]
        rw [source, List.singleton_append] at shallow
        rw [List.singleton_append, scan_shallow shallow, if_neg narrow.1, if_neg narrow.1, if_neg narrow.2,
          if_neg narrow.2]
        by_cases bracket : char = '['
        · rw [if_pos bracket, if_pos bracket, if_neg (outside bracket), if_neg List.not_mem_nil]
          rfl
        · rw [if_neg bracket, if_neg bracket]
          rfl
  | group body =>
      obtain ⟨front, last, cut, before, split⟩ := split_closed ('[' :: body)
      refine ⟨front, last ++ [']'], cut, fun first behind there => ?_⟩
      have shallow := early first behind there
      have whole : source (.group body) ++ first = before ++ (last ++ ']' :: first) := by
        rw [source, split]
        simp
      rw [whole] at shallow
      have bare : ']' ∉ last := by
        intro inside
        have member : ']' ∈ '[' :: body := split ▸ List.mem_append_right before inside
        rcases List.mem_cons.mp member with same | within
        · revert same
          decide
        · exact narrow within
      rw [List.append_assoc, List.singleton_append]
      exact scan_bracket (Nat.zero_le _) bare (shallow_back shallow)

theorem components_scan {pattern : Text} (shallow : doubleStar pattern = false) :
    (pattern.splitOn '/').map (scan 0) = components (scan 0 pattern) := by
  refine @scan_induction (fun pattern => (pattern.splitOn '/').map (scan 0) = components (scan 0 pattern))
    ?_ ?_ pattern shallow
  · rfl
  · intro token rest shallow scanned narrow unclosed later
    obtain ⟨front, last, cut, each⟩ := scan_glued narrow unclosed shallow
    obtain ⟨first, others, shape⟩ := List.exists_cons_of_ne_nil (List.splitOn_ne_nil '/' rest)
    obtain ⟨behind, split⟩ := split_front shape
    rw [scanned, components, ← later, parted, split_append, cut, shape, glued_behind, List.map_cons,
      List.map_append, List.map_append, List.map_cons, List.map_singleton, glued_behind,
      each first behind split]

theorem components_full (tokens : List Token) : components tokens ≠ [] := by
  cases tokens with
  | nil => exact List.cons_ne_nil _ _
  | cons token rest =>
      obtain ⟨front, last, shape⟩ := (List.eq_nil_or_concat' (parted token)).resolve_left <| by
        rw [parted]
        exact fun empty => List.splitOn_ne_nil '/' (source token) (List.map_eq_nil_iff.mp empty)
      rw [components, shape]
      cases components rest with
      | nil =>
          cases front with
          | nil => exact List.cons_ne_nil _ _
          | cons part front => cases front <;> exact List.cons_ne_nil _ _
      | cons first others =>
          rw [glued_behind]
          simp

section Tokens

variable {token : Token} {rest : List Token} {first : List Token} {others : List (List Token)}

theorem parted_single (narrow : Narrow token) (single : '/' ∉ source token) :
    parted token = [[token]] := by
  rw [parted, List.splitOn_eq_singleton single, List.map_singleton]
  cases token with
  | deep | any => exact narrow.elim
  | star | one => rfl
  | literal char =>
      by_cases bracket : char = '['
      · rw [bracket]
        rfl
      · rw [source, scan, if_neg fun both => narrow.1 both.1, if_neg fun both => narrow.1 both.1,
          if_neg narrow.1, if_neg narrow.2, if_neg bracket]
        rfl
  | group body => rw [source, scan_group [] narrow]; rfl

theorem components_single (narrow : Narrow token) (single : '/' ∉ source token)
    (later : components rest = first :: others) :
    components (token :: rest) = (token :: first) :: others := by
  rw [components, parted_single narrow single, later]
  rfl

theorem components_slash : components (.literal '/' :: rest) = [] :: components rest := by
  have cut : parted (.literal '/') = [[], []] := rfl
  obtain ⟨first, others, shape⟩ := List.exists_cons_of_ne_nil (components_full rest)
  rw [components, cut, shape]
  rfl

theorem slash_token (narrow : Narrow token) (slash : '/' ∈ source token) :
    token = .literal '/' ∨ ∃ body, token = .group body ∧ '/' ∈ body := by
  cases token with
  | deep | any => exact narrow.elim
  | star | one => cases List.mem_singleton.mp slash
  | literal char => exact .inl (by rw [List.mem_singleton.mp slash])
  | group body => exact .inr ⟨body, rfl, by simpa [source] using slash⟩

end Tokens

def Shut (tokens : List Token) : Prop := ∀ body, Token.group body ∈ tokens → '/' ∉ body

theorem components_shut {tokens : List Token} (narrow : ∀ token ∈ tokens, Narrow token)
    (shut : Shut tokens) : [Token.literal '/'].intercalate (components tokens) = tokens := by
  induction tokens with
  | nil => rfl
  | cons token rest induction =>
      rw [List.forall_mem_cons] at narrow
      have later := induction narrow.2 fun body member => shut body (List.mem_cons_of_mem _ member)
      obtain ⟨first, others, shape⟩ := List.exists_cons_of_ne_nil (components_full rest)
      by_cases slash : '/' ∈ source token
      · rcases slash_token narrow.1 slash with rfl | ⟨body, rfl, inside⟩
        · rw [components_slash, List.intercalate_cons_of_ne_nil (components_full rest), later]
          rfl
        · exact absurd inside (shut body List.mem_cons_self)
      · rw [components_single narrow.1 slash shape]
        rw [shape] at later
        cases others with
        | nil => simpa using later
        | cons next more =>
            rw [List.intercalate_cons_of_ne_nil (List.cons_ne_nil _ _)] at later ⊢
            rw [← later]
            rfl

theorem left_single {tokens : List Token} (single : ∀ token ∈ tokens, token.isGroup = false) :
    left none tokens = none := by
  induction tokens with
  | nil => rfl
  | cons token rest induction =>
      rw [List.forall_mem_cons] at single
      have none_ : after none token = none := by
        cases token <;> first | rfl | cases single.1
      rw [left, List.foldl_cons, none_]
      exact induction single.2

/-- A group that holds a slash is cut: a bracket that closes nothing, and a closing one. -/
theorem parted_group {body : Text} (bare : ']' ∉ body) (slash : '/' ∈ body) :
    ∃ front middle last, parted (.group body) = (.literal '[' :: front) :: (middle ++ [last]) ∧
      (left none last ≠ none → '[' ∈ body) := by
  obtain ⟨front, more, rfl, single⟩ := List.eq_append_cons_of_mem slash
  obtain ⟨middle, last, cut, before, split⟩ := split_closed more
  have whole : source (.group (front ++ '/' :: more)) = ('[' :: front) ++ '/' :: (more ++ [']']) := by
    simp [source]
  have outside : '/' ∉ '[' :: front := by
    rw [List.mem_cons, not_or]
    exact ⟨by decide, single⟩
  refine ⟨scan 0 front, middle.map (scan 0), scan 0 (last ++ [']']), ?_, fun opened => ?_⟩
  · rw [parted, whole, List.splitOn_append_cons_self_of_not_mem outside, cut, List.map_cons,
      List.map_append, List.map_singleton,
      scan_unclosed fun inside => bare (List.mem_append_left _ inside)]
  · by_contra none_
    apply opened
    apply left_single
    apply scan_single
    rw [List.mem_append, not_or]
    constructor
    · intro inside
      exact none_ (by simp [split, inside])
    · decide

end XRootDClient.Glob.Brackets

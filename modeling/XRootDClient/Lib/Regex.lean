import Mathlib.Computability.Language
import XRootDClient.Lib.Text

/-!
# Regular expressions

The part of `re` that is written with literals, character sets, `.`, `*`, `+` and plain
groups: a pattern is read character by character into a sequence, or is refused, and a
text is matched whole by derivatives. What a pattern matches is a language.
-/

set_option autoImplicit false

namespace XRootDClient.Lib

open Computability

structure CharSet where
  negated : Bool
  ranges : List (Char × Char)
  deriving DecidableEq

namespace CharSet

def contains (set : CharSet) (char : Char) : Bool :=
  (set.ranges.any fun range => decide (range.1 ≤ char ∧ char ≤ range.2)) != set.negated

def single (char : Char) : CharSet := ⟨false, [(char, char)]⟩

def dot : CharSet := ⟨true, [('\n', '\n')]⟩

theorem contains_single (char other : Char) : (single char).contains other = true ↔ other = char := by
  simp only [contains, single, List.any_cons, List.any_nil, Bool.or_false, Bool.bne_false,
    decide_eq_true_eq]
  constructor
  · exact fun ⟨low, high⟩ => Char.le_antisymm high low
  · rintro rfl
    exact ⟨Char.le_refl _, Char.le_refl _⟩

end CharSet

inductive Regex where
  | never
  | empty
  | among (set : CharSet)
  | either (first second : Regex)
  | seq (first second : Regex)
  | star (inner : Regex)
  deriving DecidableEq

namespace Regex

def nullable : Regex → Bool
  | never => false
  | empty => true
  | among _ => false
  | either first second => first.nullable || second.nullable
  | seq first second => first.nullable && second.nullable
  | star _ => true

def derive (char : Char) : Regex → Regex
  | never => never
  | empty => never
  | among set => if set.contains char then empty else never
  | either first second => either (first.derive char) (second.derive char)
  | seq first second =>
      if first.nullable then either (seq (first.derive char) second) (second.derive char)
      else seq (first.derive char) second
  | star inner => seq (inner.derive char) (star inner)

def accepts (regex : Regex) : Text → Bool
  | [] => regex.nullable
  | char :: rest => (regex.derive char).accepts rest

def language : Regex → Language Char
  | never => 0
  | empty => 1
  | among set => {text | ∃ char, set.contains char = true ∧ text = [char]}
  | either first second => first.language + second.language
  | seq first second => first.language * second.language
  | star inner => inner.language∗

theorem mem_among {set : CharSet} {text : Text} :
    text ∈ (Regex.among set).language ↔ ∃ char, set.contains char = true ∧ text = [char] := Iff.rfl

theorem nullable_iff (regex : Regex) : regex.nullable = true ↔ [] ∈ regex.language := by
  induction regex with
  | never => simp [nullable, language]
  | empty => simp [nullable, language]
  | among set => simp [nullable, mem_among]
  | either first second one two =>
      rw [nullable, language, Bool.or_eq_true, one, two, Language.mem_add]
  | seq first second one two =>
      simp only [nullable, language, Bool.and_eq_true, one, two, Language.mem_mul]
      constructor
      · exact fun ⟨left, right⟩ => ⟨[], left, [], right, rfl⟩
      · rintro ⟨left, known, right, there, whole⟩
        obtain ⟨rfl, rfl⟩ := List.append_eq_nil_iff.mp whole
        exact ⟨known, there⟩
  | star inner _ => simp [nullable, language, Language.nil_mem_kstar]

/-- A text of a repetition that begins with a character begins with a text of what is
repeated that does. -/
theorem star_cons {words : Language Char} {char : Char} {rest : Text} :
    char :: rest ∈ words∗ ↔ ∃ first second, char :: first ∈ words ∧ second ∈ words∗ ∧
      first ++ second = rest := by
  constructor
  · intro member
    obtain ⟨pieces, whole, each⟩ := Language.mem_kstar_iff_exists_nonempty.mp member
    cases pieces with
    | nil => cases whole
    | cons piece others =>
        obtain ⟨known, some⟩ := each piece List.mem_cons_self
        obtain ⟨head, tail, rfl⟩ := List.exists_cons_of_ne_nil some
        cases whole
        exact ⟨tail, others.flatten, known,
          Language.join_mem_kstar fun other member =>
            (each other (List.mem_cons_of_mem _ member)).1, rfl⟩
  · rintro ⟨first, second, known, more, rfl⟩
    obtain ⟨pieces, rfl, each⟩ := Language.mem_kstar.mp more
    exact Language.mem_kstar.mpr ⟨(char :: first) :: pieces, rfl, List.forall_mem_cons.mpr ⟨known, each⟩⟩

theorem derive_iff (regex : Regex) (char : Char) (rest : Text) :
    rest ∈ (regex.derive char).language ↔ char :: rest ∈ regex.language := by
  induction regex generalizing rest with
  | never => simp [derive, language]
  | empty => simp [derive, language]
  | among set =>
      rw [derive, mem_among]
      split_ifs with known
      · simp [language, known]
      · simp only [language, Language.notMem_zero, false_iff]
        rintro ⟨other, member, same⟩
        cases same
        exact known member
  | either first second one two =>
      rw [derive, language, language, Language.mem_add, Language.mem_add, one, two]
  | seq first second one two =>
      have later : rest ∈ (seq (first.derive char) second).language ↔
          ∃ left right, char :: left ∈ first.language ∧ right ∈ second.language ∧
            left ++ right = rest := by
        rw [language, Language.mem_mul]
        constructor
        · rintro ⟨left, known, right, there, whole⟩
          exact ⟨left, right, (one left).mp known, there, whole⟩
        · rintro ⟨left, right, known, there, whole⟩
          exact ⟨left, (one left).mpr known, right, there, whole⟩
      have cut : char :: rest ∈ (seq first second).language ↔
          (∃ left right, char :: left ∈ first.language ∧ right ∈ second.language ∧
            left ++ right = rest) ∨ first.nullable = true ∧ char :: rest ∈ second.language := by
        rw [language, Language.mem_mul, nullable_iff]
        constructor
        · rintro ⟨left, known, right, there, whole⟩
          cases left with
          | nil => exact .inr ⟨known, whole ▸ there⟩
          | cons head tail =>
              cases whole
              exact .inl ⟨tail, right, known, there, rfl⟩
        · rintro (⟨left, right, known, there, rfl⟩ | ⟨known, there⟩)
          · exact ⟨_, known, right, there, rfl⟩
          · exact ⟨[], known, _, there, rfl⟩
      rw [cut, derive]
      split_ifs with nothing
      · rw [language, Language.mem_add, later, two]
        simp [nothing]
      · rw [later]
        simp [nothing]
  | star inner induction =>
      rw [derive, language, language, star_cons, Language.mem_mul]
      constructor
      · rintro ⟨left, known, right, there, whole⟩
        exact ⟨left, right, (induction left).mp known, there, whole⟩
      · rintro ⟨left, right, known, there, whole⟩
        exact ⟨left, (induction left).mpr known, right, there, whole⟩

theorem accepts_iff (regex : Regex) (text : Text) :
    regex.accepts text = true ↔ text ∈ regex.language := by
  induction text generalizing regex with
  | nil => exact nullable_iff regex
  | cons char rest induction => rw [accepts, induction, derive_iff]

def concat : List Regex → Regex
  | [] => empty
  | first :: rest => seq first (concat rest)

theorem mem_concat_cons {first : Regex} {rest : List Regex} {text : Text} :
    text ∈ (concat (first :: rest)).language ↔
      ∃ left ∈ first.language, ∃ right ∈ (concat rest).language, left ++ right = text :=
  Language.mem_mul

theorem mem_concat_append {first second : List Regex} {text : Text} :
    text ∈ (concat (first ++ second)).language ↔
      ∃ left ∈ (concat first).language, ∃ right ∈ (concat second).language, left ++ right = text := by
  induction first generalizing text with
  | nil =>
      rw [List.nil_append]
      constructor
      · exact fun member => ⟨[], rfl, text, member, rfl⟩
      · rintro ⟨left, rfl, right, known, rfl⟩
        exact known
  | cons regex rest induction =>
      rw [List.cons_append, mem_concat_cons]
      constructor
      · rintro ⟨left, known, right, there, rfl⟩
        obtain ⟨middle, early, last, late, rfl⟩ := induction.mp there
        exact ⟨left ++ middle, mem_concat_cons.mpr ⟨left, known, middle, early, rfl⟩, last, late,
          List.append_assoc _ _ _⟩
      · rintro ⟨left, known, right, there, rfl⟩
        obtain ⟨start, early, middle, late, rfl⟩ := mem_concat_cons.mp known
        exact ⟨start, early, middle ++ right, induction.mpr ⟨middle, late, right, there, rfl⟩,
          (List.append_assoc _ _ _).symm⟩

end Regex

namespace Pattern

/-- How far a set has been read: behind its bracket, behind a caret there, behind a range,
behind a member, or behind a member and a dash. -/
inductive Stage where
  | start
  | first
  | more
  | member (char : Char)
  | dash (char : Char)
  deriving DecidableEq

inductive Mode where
  | plain
  | escape
  | group
  | asked
  | within (negated : Bool) (ranges : List (Char × Char)) (stage : Stage)
  | quoted (negated : Bool) (ranges : List (Char × Char)) (stage : Stage)
  deriving DecidableEq

/-- The items of a sequence, the last one first, each with whether it is a repetition;
and the sequences around it. -/
structure Parser where
  mode : Mode
  items : List (Regex × Bool)
  outer : List (List (Regex × Bool))
  deriving DecidableEq

def start : Parser := ⟨.plain, [], []⟩

def sequence (items : List (Regex × Bool)) : List Regex := (items.map Prod.fst).reverse

namespace Parser

variable (parser : Parser)

def add (regex : Regex) : Parser :=
  { parser with mode := .plain, items := (regex, false) :: parser.items }

/-- A repetition of the last item. There is none of a repetition. -/
def again (build : Regex → Regex) : Option Parser :=
  match parser.items with
  | (regex, false) :: rest => some { parser with items := (build regex, true) :: rest }
  | _ => none

def close : Option Parser :=
  match parser.outer with
  | [] => none
  | items :: outer =>
      some ⟨.plain, (Regex.concat (sequence parser.items), false) :: items, outer⟩

/-- A character outside sets. What else has a meaning of its own is not read. -/
def plain (char : Char) : Option Parser :=
  if char = '\\' then some { parser with mode := .escape }
  else if char = '[' then some { parser with mode := .within false [] .start }
  else if char = '(' then some { parser with mode := .group }
  else if char = ')' then parser.close
  else if char = '.' then some (parser.add (.among .dot))
  else if char = '*' then parser.again .star
  else if char = '+' then parser.again fun regex => .seq regex (.star regex)
  else if char ∈ ['?', '|', '^', '$', '\x7b', '\x7d'] then none
  else some (parser.add (.among (.single char)))

variable (negated : Bool) (ranges : List (Char × Char)) (stage : Stage)

def enter (char : Char) : Option Parser :=
  match stage with
  | .start | .first | .more => some { parser with mode := .within negated ranges (.member char) }
  | .member before =>
      some { parser with mode := .within negated (ranges ++ [(before, before)]) (.member char) }
  | .dash before =>
      if before ≤ char then
        some { parser with mode := .within negated (ranges ++ [(before, char)]) .more }
      else none

/-- A bracket behind what was read of a set: the end of it, unless nothing was read. -/
def bracket : Option Parser :=
  match stage with
  | .start | .first => parser.enter negated ranges stage ']'
  | .more => some (parser.add (.among ⟨negated, ranges⟩))
  | .member before => some (parser.add (.among ⟨negated, ranges ++ [(before, before)]⟩))
  | .dash before =>
      some (parser.add (.among ⟨negated, ranges ++ [(before, before), ('-', '-')]⟩))

def inside (char : Char) : Option Parser :=
  if char = '\\' then some { parser with mode := .quoted negated ranges stage }
  else if char = ']' then parser.bracket negated ranges stage
  else
    match stage, char with
    | .start, '^' => some { parser with mode := .within true ranges .first }
    | .member before, '-' => some { parser with mode := .within negated ranges (.dash before) }
    | _, _ => parser.enter negated ranges stage char

/-- One character. An escaped letter or digit has a meaning of its own and is not read. -/
def step (char : Char) : Option Parser :=
  match parser.mode with
  | .plain => parser.plain char
  | .escape => if char.isAlphanum then none else some (parser.add (.among (.single char)))
  | .group => if char = '?' then some { parser with mode := .asked } else none
  | .asked => if char = ':' then some ⟨.plain, [], parser.items :: parser.outer⟩ else none
  | .within negated ranges stage => parser.inside negated ranges stage char
  | .quoted negated ranges stage =>
      if char.isAlphanum then none else parser.enter negated ranges stage char

end Parser

def run (parser : Parser) (text : Text) : Option Parser := text.foldlM Parser.step parser

/-- `re.compile`, the sequence it comes to; nothing where it raises `re.error`. -/
def compile (text : Text) : Option (List Regex) :=
  (run start text).bind fun parser =>
    if parser.mode = .plain ∧ parser.outer = [] then some (sequence parser.items) else none

theorem run_append (parser : Parser) (first second : Text) :
    run parser (first ++ second) = (run parser first).bind fun parser => run parser second :=
  List.foldlM_append

end Pattern

/-- `re.compile(pattern).fullmatch(text)`. -/
def fullmatch (pattern text : Text) : Option Bool :=
  (Pattern.compile pattern).map fun items => (Regex.concat items).accepts text

example : fullmatch (str "/(?:[^/]+/)*[a-c-]x.*\\.") (str "/a/b/-xyz.") = some true := by decide

example : Pattern.compile (str "[b-a]") = none ∧ Pattern.compile (str "[]a") = none := by decide

end XRootDClient.Lib

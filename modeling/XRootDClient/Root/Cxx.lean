import Mathlib.Data.List.DropRight
import Mathlib.Data.Nat.Basic
import Mathlib.Order.Basic
import XRootDClient.Lib.Decimal
import XRootDClient.Lib.Text

/-!
# C++ type names

A column's type as it is declared, read into a small tree: prefixes, pointers and blanks
are taken off at every level, and what is inside the brackets is read the same way. Every
spelling of a tree is read as that tree, to any depth.
-/

set_option autoImplicit false

namespace XRootDClient.Root.Cxx

open Lib

structure Prim where
  typename : Text
  typecode : Char
  itemsize : Nat
  deriving DecidableEq

inductive Node
  | prim (prim : Prim)
  /-- Whether a run of the strings is introduced by a record of its own. -/
  | str (record : Bool)
  | seq (item : Node)
  | mapping (key value : Node)
  | pair (first second : Node)
  deriving DecidableEq

def PRIMS : List (Prim × List Text) :=
  [(⟨str "bool", 'b', 1⟩, [str "bool", str "Bool_t"]),
    (⟨str "int8", 'b', 1⟩, [str "char", str "Char_t", str "int8_t", str "signed char"]),
    (⟨str "uint8", 'B', 1⟩, [str "unsigned char", str "UChar_t", str "uint8_t", str "Byte_t"]),
    (⟨str "int16", 'h', 2⟩,
      [str "short", str "short int", str "Short_t", str "int16_t", str "Version_t"]),
    (⟨str "uint16", 'H', 2⟩,
      [str "unsigned short", str "unsigned short int", str "UShort_t", str "uint16_t"]),
    (⟨str "int32", 'i', 4⟩, [str "int", str "Int_t", str "int32_t"]),
    (⟨str "uint32", 'I', 4⟩, [str "unsigned", str "unsigned int", str "UInt_t", str "uint32_t"]),
    (⟨str "int64", 'q', 8⟩,
      [str "long", str "long int", str "long long", str "long long int", str "Long_t",
        str "Long64_t"]),
    (⟨str "uint64", 'Q', 8⟩,
      [str "unsigned long", str "unsigned long int", str "unsigned long long",
        str "unsigned long long int", str "ULong_t", str "ULong64_t"]),
    (⟨str "float32", 'f', 4⟩, [str "float", str "Float_t"]),
    (⟨str "float64", 'd', 8⟩, [str "double", str "Double_t"])]

def BY_NAME : List (Text × Prim) :=
  PRIMS.flatMap fun entry => entry.2.map fun spelling => (spelling, entry.1)

def STRINGS : List (Text × Bool) :=
  [(str "string", true), (str "basic_string<char>", true), (str "TString", false)]

def SEQUENCES : List Text :=
  [str "vector", str "list", str "forward_list", str "deque", str "set", str "multiset",
    str "unordered_set", str "RVec"]

def MAPPINGS : List Text := [str "map", str "unordered_map"]

def lookup {Value : Type} (table : List (Text × Value)) (text : Text) : Option Value :=
  (table.find? (·.1 = text)).map (·.2)

/-- The loop of `text.replace(mark, "")`, with what of a mark is still to be skipped. -/
def removeFrom (mark : Text) : Nat → Text → Text
  | _, [] => []
  | skip + 1, _ :: rest => removeFrom mark skip rest
  | 0, char :: rest =>
      if mark.isPrefixOf (char :: rest) then removeFrom mark (mark.length - 1) rest
      else char :: removeFrom mark 0 rest

def remove (mark text : Text) : Text := removeFrom mark 0 text

def STD : Text := str "std::"

def VEC_OPS : Text := str "ROOT::VecOps::"

def rstrip (text : Text) : Text :=
  (text.reverse.dropWhile fun char => char = '*' || char = '&').reverse

def clean (name : Text) : Text :=
  remove VEC_OPS (Text.strip (rstrip (Text.strip (remove STD name))))

/-- `_split`, with the depth and what is in front. -/
def splitFrom (depth : Int) (front : Text) : Text → Option (Text × Text)
  | [] => none
  | char :: rest =>
      let depth := depth + ((if char = '<' then 1 else 0) - (if char = '>' then 1 else 0))
      if char = ',' ∧ depth = 0 then some (front, rest)
      else splitFrom depth (front ++ [char]) rest

def split (text : Text) : Option (Text × Text) := splitFrom 0 [] text

def otherDigits : List (Nat × Nat) :=
  [(0xB2, 0xB3), (0xB9, 0xB9), (0x1369, 0x1371), (0x19DA, 0x19DA), (0x2070, 0x2070),
    (0x2074, 0x2079), (0x2080, 0x2089), (0x2460, 0x2468), (0x2474, 0x247C), (0x2488, 0x2490),
    (0x24EA, 0x24EA), (0x24F5, 0x24FD), (0x24FF, 0x24FF), (0x2776, 0x277E), (0x2780, 0x2788),
    (0x278A, 0x2792), (0x10A40, 0x10A43), (0x10E60, 0x10E68), (0x11052, 0x1105A),
    (0x1F100, 0x1F10A)]

def isdigit (text : Text) : Bool :=
  !text.isEmpty && text.all fun char => (Decimal.digitValue char).isSome ||
    otherDigits.any fun range => range.1 ≤ char.toNat && char.toNat ≤ range.2

inductive Shape
  | unknown
  | str (record : Bool)
  | prim (prim : Prim)
  | seq (inside : Text)
  | bits
  | mapping (key value : Text)
  | pair (first second : Text)

def shape (text : Text) : Shape :=
  match lookup STRINGS text with
  | some record => .str record
  | none =>
      match lookup BY_NAME text with
      | some prim => .prim prim
      | none =>
          let (head, angle, rest) := Text.partition '<' text
          if angle = false ∨ rest.getLast? ≠ some '>' then .unknown
          else
            let inside := rest.dropLast
            if head ∈ SEQUENCES then .seq inside
            else if head = str "bitset" ∧ isdigit (Text.strip inside) then .bits
            else if head ∈ MAPPINGS then
              match split inside with
              | none => .unknown
              | some (key, value) => .mapping key value
            else if head = str "pair" then
              match split inside with
              | none => .unknown
              | some (first, second) => .pair first second
            else .unknown

theorem remove_length_le (mark : Text) (skip : Nat) (text : Text) :
    (removeFrom mark skip text).length ≤ text.length := by
  induction text generalizing skip with
  | nil => cases skip <;> exact Nat.le_refl _
  | cons char rest induction =>
      cases skip with
      | succ skip => exact (induction skip).trans (Nat.le_succ _)
      | zero =>
          rw [removeFrom]
          split
          · exact (induction _).trans (Nat.le_succ _)
          · exact Nat.succ_le_succ (induction 0)

theorem strip_length_le (text : Text) : (Text.strip text).length ≤ text.length := by
  rw [Text.strip, List.length_reverse]
  refine (List.dropWhile_sublist _).length_le.trans ?_
  rw [List.length_reverse]
  exact (List.dropWhile_sublist _).length_le

theorem clean_length_le (name : Text) : (clean name).length ≤ name.length :=
  (remove_length_le _ _ _).trans ((strip_length_le _).trans
    ((List.rdropWhile_prefix (fun char => char = '*' || char = '&') _).length_le.trans
      ((strip_length_le _).trans (remove_length_le _ _ _))))

theorem split_shorter {depth : Int} {front text left right : Text}
    (parted : splitFrom depth front text = some (left, right)) :
    left.length < front.length + text.length ∧ right.length < text.length := by
  induction text generalizing depth front with
  | nil => cases parted
  | cons char rest induction =>
      rw [splitFrom] at parted
      generalize depth + ((if char = '<' then 1 else 0) - (if char = '>' then 1 else 0)) = next
        at parted
      by_cases here : char = ',' ∧ next = 0
      · rw [if_pos here] at parted
        cases parted
        simp
      · rw [if_neg here] at parted
        have later := induction parted
        simp only [List.length_append, List.length_cons, List.length_nil] at later ⊢
        omega

theorem inside_shorter {text : Text} (closed : (Text.partition '<' text).2.2.getLast? = some '>') :
    (Text.partition '<' text).2.2.dropLast.length < text.length := by
  have short : (Text.partition '<' text).2.2.length ≤ text.length := by
    rw [Text.partition]
    cases found : text.dropWhile (· ≠ '<') with
    | nil => exact Nat.zero_le _
    | cons mark rest =>
        have whole := (List.dropWhile_sublist (l := text) (· ≠ '<')).length_le
        rw [found, List.length_cons] at whole
        exact Nat.le_of_succ_le whole
  cases rest : (Text.partition '<' text).2.2 with
  | nil => rw [rest] at closed; cases closed
  | cons char others =>
      rw [rest] at short
      rw [List.length_dropLast]
      simp only [List.length_cons] at short ⊢
      omega

def Shape.parts : Shape → List Text
  | .seq inside => [inside]
  | .mapping key value => [key, value]
  | .pair first second => [first, second]
  | _ => []

theorem parts_shorter {text part : Text} (member : part ∈ (shape text).parts) :
    part.length < text.length := by
  rw [shape] at member
  split at member
  case h_1 => cases member
  case h_2 =>
      split at member
      case h_1 => cases member
      case h_2 =>
          dsimp only at member
          split at member
          case isTrue => cases member
          case isFalse known =>
              obtain ⟨-, closed⟩ := not_or.mp known
              have inside := inside_shorter (not_not.mp closed)
              have halves : ∀ left right, split (Text.partition '<' text).2.2.dropLast =
                  some (left, right) → left.length < text.length ∧ right.length < text.length := by
                intro left right parted
                have shorter := split_shorter parted
                simp only [List.length_nil] at shorter
                omega
              split_ifs at member
              · rw [List.mem_singleton.mp member]
                exact inside
              · cases member
              · split at member
                case h_1 => cases member
                case h_2 key value parted =>
                    have both := halves _ _ parted
                    rcases List.mem_pair.mp member with rfl | rfl
                    · exact both.1
                    · exact both.2
              · split at member
                case h_1 => cases member
                case h_2 first second parted =>
                    have both := halves _ _ parted
                    rcases List.mem_pair.mp member with rfl | rfl
                    · exact both.1
                    · exact both.2
              · cases member

def boolPrim : Prim := ⟨str "bool", 'b', 1⟩

def parse (name : Text) : Option Node :=
  match _taken : shape (clean name) with
  | .unknown => none
  | .str record => some (.str record)
  | .prim prim => some (.prim prim)
  | .seq inside => (parse inside).map .seq
  | .bits => some (.seq (.prim boolPrim))
  | .mapping key value => do
      let key ← parse key
      let value ← parse value
      return .mapping key value
  | .pair first second => do
      let first ← parse first
      let second ← parse second
      return .pair first second
termination_by name.length
decreasing_by
  all_goals
    refine lt_of_lt_of_le (parts_shorter ?_) (clean_length_le name)
    rw [_taken]
    simp [Shape.parts]

def pyName : Node → Text
  | .prim prim => prim.typename
  | .str _ => str "str"
  | .seq item => str "list[" ++ pyName item ++ str "]"
  | .pair first second => str "tuple[" ++ pyName first ++ str ", " ++ pyName second ++ str "]"
  | .mapping key value => str "dict[" ++ pyName key ++ str ", " ++ pyName value ++ str "]"

/-- What may stand around a type: blanks and a prefix in front, and blanks around a run
of pointers and references behind. -/
structure Dress where
  before : Nat
  prefixed : Bool
  between : Nat
  run : List Bool
  after : Nat

def blanks (count : Nat) : Text := List.replicate count ' '

def marks (run : List Bool) : Text := run.map fun pointer => if pointer then '*' else '&'

def Dress.wear (dress : Dress) (core : Text) : Text :=
  blanks dress.before ++ (if dress.prefixed then STD else []) ++ core ++ blanks dress.between ++
    marks dress.run ++ blanks dress.after

def bracketed (head inside : Text) : Text := head ++ '<' :: (inside ++ ['>'])

inductive Spells : Text → Node → Prop
  | prim (dress : Dress) {name : Text} {prim : Prim} (known : lookup BY_NAME name = some prim) :
      Spells (dress.wear name) (.prim prim)
  | str (dress : Dress) {name : Text} {record : Bool} (known : lookup STRINGS name = some record) :
      Spells (dress.wear name) (.str record)
  | seq (dress : Dress) {head inside : Text} {item : Node} (known : head ∈ SEQUENCES)
      (spelled : Spells inside item) : Spells (dress.wear (bracketed head inside)) (.seq item)
  | mapping (dress : Dress) {head left right : Text} {key value : Node} (known : head ∈ MAPPINGS)
      (first : Spells left key) (second : Spells right value) :
      Spells (dress.wear (bracketed head (left ++ ',' :: right))) (.mapping key value)
  | pair (dress : Dress) {left right : Text} {one other : Node} (first : Spells left one)
      (second : Spells right other) :
      Spells (dress.wear (bracketed (Lib.str "pair") (left ++ ',' :: right))) (.pair one other)

def rendered (tokens : List (Option Char)) : Text :=
  tokens.flatMap fun token => token.elim STD fun char => [char]

def kept (tokens : List (Option Char)) : Text := tokens.filterMap id

theorem remove_skip {mark front rest : Text} :
    removeFrom mark front.length (front ++ rest) = removeFrom mark 0 rest := by
  induction front with
  | nil => rfl
  | cons char front induction => exact induction

theorem remove_bare {mark text : Text} {char : Char} (inside : char ∈ mark) (bare : char ∉ text) :
    remove mark text = text := by
  rw [remove]
  induction text with
  | nil => rfl
  | cons first rest induction =>
      have absent : ¬ mark.isPrefixOf (first :: rest) = true := by
        intro here
        exact bare ((List.isPrefixOf_iff_prefix.mp here).subset inside)
      rw [removeFrom, if_neg absent, induction fun member => bare (List.mem_cons_of_mem _ member)]

/-- What begins with another character than a prefix does begins with it as a token. -/
theorem rendered_head {tokens : List (Option Char)} {char : Char} {rest : Text}
    (other : char ≠ 's') (starts : [char] ++ rest <+: rendered tokens) :
    ∃ more, tokens = some char :: more ∧ rest <+: rendered more := by
  cases tokens with
  | nil => exact absurd (List.prefix_nil.mp starts) (List.cons_ne_nil _ _)
  | cons token more =>
      cases token with
      | none =>
          have first := (List.cons_prefix_cons.mp starts).1
          exact absurd first other
      | some found =>
          obtain ⟨rfl, behind⟩ := List.cons_prefix_cons.mp starts
          exact ⟨more, rfl, behind⟩

theorem no_prefix_here {tokens : List (Option Char)} {char : Char}
    (bare : ∀ char, some char ∈ tokens → char ≠ ':') :
    ¬ STD.isPrefixOf (char :: rendered tokens) = true := by
  intro here
  have starts : 's' :: 't' :: 'd' :: [':', ':'] <+: char :: rendered tokens :=
    List.isPrefixOf_iff_prefix.mp here
  obtain ⟨-, second⟩ := List.cons_prefix_cons.mp starts
  obtain ⟨afterT, rfl, third⟩ := rendered_head (by decide) second
  obtain ⟨afterD, rfl, colon⟩ := rendered_head (by decide) third
  obtain ⟨more, rfl, -⟩ := rendered_head (by decide) colon
  exact bare ':' (by simp) rfl

theorem remove_rendered {tokens : List (Option Char)}
    (bare : ∀ char, some char ∈ tokens → char ≠ ':') : remove STD (rendered tokens) = kept tokens := by
  induction tokens with
  | nil => rfl
  | cons token rest induction =>
      have later := induction fun char member => bare char (List.mem_cons_of_mem _ member)
      cases token with
      | some char =>
          have absent := @no_prefix_here rest char fun other member =>
            bare other (List.mem_cons_of_mem _ member)
          have parted : rendered (some char :: rest) = char :: rendered rest := rfl
          rw [parted, remove, removeFrom, if_neg absent, ← remove, later]
          rfl
      | none =>
          have parted : rendered (none :: rest) = 's' :: ((STD.drop 1) ++ rendered rest) := rfl
          have here : STD.isPrefixOf ('s' :: ((STD.drop 1) ++ rendered rest)) = true :=
            List.isPrefixOf_iff_prefix.mpr (List.prefix_append STD (rendered rest))
          rw [parted, remove, removeFrom, if_pos here]
          exact (@remove_skip STD (STD.drop 1) (rendered rest)).trans later

def plain (text : Text) : List (Option Char) := text.map some

@[simp] theorem rendered_append (left right : List (Option Char)) :
    rendered (left ++ right) = rendered left ++ rendered right := List.flatMap_append

@[simp] theorem kept_append (left right : List (Option Char)) :
    kept (left ++ right) = kept left ++ kept right := List.filterMap_append

@[simp] theorem rendered_plain (text : Text) : rendered (plain text) = text := by
  induction text with
  | nil => rfl
  | cons char rest induction => exact congrArg (char :: ·) induction

@[simp] theorem kept_plain (text : Text) : kept (plain text) = text := by
  induction text with
  | nil => rfl
  | cons char rest induction => exact congrArg (char :: ·) induction

def Bare (tokens : List (Option Char)) : Prop := ∀ char, some char ∈ tokens → char ≠ ':'

theorem bare_append {left right : List (Option Char)} (first : Bare left) (second : Bare right) :
    Bare (left ++ right) := by
  intro char member
  rcases List.mem_append.mp member with here | here
  · exact first char here
  · exact second char here

theorem bare_plain {text : Text} (absent : ':' ∉ text) : Bare (plain text) := by
  rintro char member rfl
  obtain ⟨other, inside, same⟩ := List.mem_map.mp member
  exact absent (Option.some.inj same ▸ inside)

theorem marks_mem {run : List Bool} {char : Char} (member : char ∈ marks run) :
    char = '*' ∨ char = '&' := by
  obtain ⟨pointer, -, rfl⟩ := List.mem_map.mp member
  cases pointer with
  | true => exact Or.inl rfl
  | false => exact Or.inr rfl

theorem blanks_mem {count : Nat} {char : Char} (member : char ∈ blanks count) : char = ' ' :=
  List.eq_of_mem_replicate member

theorem wear_tokens (dress : Dress) {tokens : List (Option Char)} (bare : Bare tokens) :
    ∃ dressed, Bare dressed ∧ rendered dressed = dress.wear (rendered tokens) ∧
      kept dressed = { dress with prefixed := false }.wear (kept tokens) := by
  have noBlank : ∀ count, ':' ∉ blanks count := fun count member =>
    absurd (blanks_mem member) (by decide)
  have noMark : ∀ run, ':' ∉ marks run := by
    intro run member
    rcases marks_mem member with here | here <;> cases here
  have prefix_ : Bare (if dress.prefixed then [none] else []) := by
    intro char member
    split at member
    · cases List.mem_singleton.mp member
    · cases member
  refine ⟨plain (blanks dress.before) ++ (if dress.prefixed then [none] else []) ++ tokens ++
    plain (blanks dress.between) ++ plain (marks dress.run) ++ plain (blanks dress.after), ?_, ?_, ?_⟩
  · exact bare_append (bare_append (bare_append (bare_append (bare_append
      (bare_plain (noBlank _)) prefix_) bare) (bare_plain (noBlank _))) (bare_plain (noMark _)))
      (bare_plain (noBlank _))
  · simp only [rendered_append, rendered_plain, Dress.wear]
    cases dress.prefixed <;> rfl
  · simp only [kept_append, kept_plain, Dress.wear]
    cases dress.prefixed <;> rfl

theorem names_plain : (∀ entry ∈ BY_NAME, ':' ∉ entry.1) ∧ (∀ entry ∈ STRINGS, ':' ∉ entry.1) ∧
    (∀ head ∈ SEQUENCES ++ MAPPINGS ++ [str "pair"], ':' ∉ head) := by
  decide +kernel

theorem lookup_mem {Value : Type} {table : List (Text × Value)} {text : Text} {value : Value}
    (known : lookup table text = some value) : (text, value) ∈ table := by
  obtain ⟨entry, found, rfl⟩ := Option.map_eq_some_iff.mp known
  have same := List.find?_some found
  have member := List.mem_of_find?_eq_some found
  rw [← of_decide_eq_true same]
  exact member

theorem bracketed_tokens {head : Text} {tokens : List (Option Char)} (absent : ':' ∉ head)
    (bare : Bare tokens) :
    ∃ both, Bare both ∧ rendered both = bracketed head (rendered tokens) ∧
      kept both = bracketed head (kept tokens) := by
  refine ⟨plain head ++ (plain ['<'] ++ (tokens ++ plain ['>'])), ?_, ?_, ?_⟩
  · exact bare_append (bare_plain absent) (bare_append (bare_plain (by decide))
      (bare_append bare (bare_plain (by decide))))
  · simp only [rendered_append, rendered_plain, bracketed]
    rfl
  · simp only [kept_append, kept_plain, bracketed]
    rfl

theorem comma_tokens {left right : List (Option Char)} (first : Bare left) (second : Bare right) :
    ∃ both, Bare both ∧ rendered both = rendered left ++ ',' :: rendered right ∧
      kept both = kept left ++ ',' :: kept right := by
  refine ⟨left ++ (plain [','] ++ right), ?_, ?_, ?_⟩
  · exact bare_append first (bare_append (bare_plain (by decide)) second)
  · simp only [rendered_append, rendered_plain]
    rfl
  · simp only [kept_append, kept_plain]
    rfl

/-- A spelling is one of the same type when its prefixes are gone, and then without a
colon. -/
theorem spelled_tokens {text : Text} {node : Node} (spelled : Spells text node) :
    ∃ tokens, Bare tokens ∧ rendered tokens = text ∧ Spells (kept tokens) node := by
  induction spelled with
  | prim dress known =>
      have absent := names_plain.1 _ (lookup_mem known)
      obtain ⟨tokens, bare, whole, rest⟩ := wear_tokens dress (bare_plain absent)
      rw [rendered_plain] at whole
      rw [kept_plain] at rest
      exact ⟨tokens, bare, whole, rest ▸ .prim _ known⟩
  | str dress known =>
      have absent := names_plain.2.1 _ (lookup_mem known)
      obtain ⟨tokens, bare, whole, rest⟩ := wear_tokens dress (bare_plain absent)
      rw [rendered_plain] at whole
      rw [kept_plain] at rest
      exact ⟨tokens, bare, whole, rest ▸ .str _ known⟩
  | seq dress known spelled induction =>
      obtain ⟨inner, innerBare, rfl, innerSpelled⟩ := induction
      have absent := names_plain.2.2 _
        (List.mem_append_left _ (List.mem_append_left _ known))
      obtain ⟨core, coreBare, coreWhole, coreRest⟩ := bracketed_tokens absent innerBare
      obtain ⟨tokens, bare, whole, rest⟩ := wear_tokens dress coreBare
      refine ⟨tokens, bare, coreWhole ▸ whole, ?_⟩
      rw [rest, coreRest]
      exact .seq _ known innerSpelled
  | mapping dress known first second firstInduction secondInduction =>
      obtain ⟨left, leftBare, rfl, leftSpelled⟩ := firstInduction
      obtain ⟨right, rightBare, rfl, rightSpelled⟩ := secondInduction
      have absent := names_plain.2.2 _
        (List.mem_append_left _ (List.mem_append_right _ known))
      obtain ⟨inner, innerBare, innerWhole, innerRest⟩ := comma_tokens leftBare rightBare
      obtain ⟨core, coreBare, coreWhole, coreRest⟩ := bracketed_tokens absent innerBare
      obtain ⟨tokens, bare, whole, rest⟩ := wear_tokens dress coreBare
      refine ⟨tokens, bare, innerWhole ▸ coreWhole ▸ whole, ?_⟩
      rw [rest, coreRest, innerRest]
      exact .mapping _ known leftSpelled rightSpelled
  | pair dress first second firstInduction secondInduction =>
      obtain ⟨left, leftBare, rfl, leftSpelled⟩ := firstInduction
      obtain ⟨right, rightBare, rfl, rightSpelled⟩ := secondInduction
      have absent := names_plain.2.2 (str "pair") (by simp)
      obtain ⟨inner, innerBare, innerWhole, innerRest⟩ := comma_tokens leftBare rightBare
      obtain ⟨core, coreBare, coreWhole, coreRest⟩ := bracketed_tokens absent innerBare
      obtain ⟨tokens, bare, whole, rest⟩ := wear_tokens dress coreBare
      refine ⟨tokens, bare, innerWhole ▸ coreWhole ▸ whole, ?_⟩
      rw [rest, coreRest, innerRest]
      exact .pair _ leftSpelled rightSpelled

/-- A text that begins and ends with something that is not taken off. -/
structure Firm (text : Text) : Prop where
  first : ∃ char, text.head? = some char ∧ Text.isSpace char = false
  last : ∃ char, text.getLast? = some char ∧ Text.isSpace char = false

theorem drop_blanks (count : Nat) {text : Text} {char : Char} (first : text.head? = some char)
    (firm : Text.isSpace char = false) : (blanks count ++ text).dropWhile Text.isSpace = text := by
  have space : ∀ char ∈ blanks count, Text.isSpace char = true := by
    intro char member
    rw [blanks_mem member]
    decide
  rw [List.dropWhile_append_of_pos space]
  cases text with
  | nil => cases first
  | cons head rest =>
      cases first
      exact List.dropWhile_cons_of_neg (by rw [firm]; exact Bool.false_ne_true)

theorem strip_blanks (before after : Nat) {text : Text} (firm : Firm text) :
    Text.strip (blanks before ++ (text ++ blanks after)) = text := by
  obtain ⟨first, begins, firstFirm⟩ := firm.first
  obtain ⟨last, ends, lastFirm⟩ := firm.last
  have head : (text ++ blanks after).head? = some first := by
    rw [List.head?_append, begins, Option.some_or]
  have back : (text ++ blanks after).reverse = blanks after ++ text.reverse := by
    rw [List.reverse_append, blanks, List.reverse_replicate]
  have tail : text.reverse.head? = some last := by rw [List.head?_reverse, ends]
  rw [Text.strip, drop_blanks before head firstFirm, back, drop_blanks after tail lastFirm,
    List.reverse_reverse]

theorem strip_firm {text : Text} (firm : Firm text) : Text.strip text = text := by
  have bare := strip_blanks 0 0 firm
  rwa [blanks, List.replicate_zero, List.append_nil, List.nil_append] at bare

theorem rstrip_marks {text : Text} (run : List Bool)
    (last : ∀ char ∈ text.getLast?, char ≠ '*' ∧ char ≠ '&') : rstrip (text ++ marks run) = text := by
  have marked : ∀ char ∈ (marks run).reverse, (char = '*' || char = '&') = true := by
    intro char member
    rcases marks_mem (List.mem_reverse.mp member) with rfl | rfl <;> decide
  rw [rstrip, List.reverse_append, List.dropWhile_append_of_pos marked]
  cases shape_ : text.reverse with
  | nil => rw [List.reverse_eq_nil_iff.mp shape_]; rfl
  | cons char rest =>
      have ends : text.getLast? = some char := by rw [← List.head?_reverse, shape_]; rfl
      obtain ⟨notStar, notAnd⟩ := last char ends
      rw [List.dropWhile_cons_of_neg (by simp [notStar, notAnd]), ← shape_, List.reverse_reverse]

theorem clean_wear (dress : Dress) {core : Text} (firm : Firm core)
    (ends : ∀ char ∈ core.getLast?, char ≠ '*' ∧ char ≠ '&')
    (absent : ':' ∉ dress.wear core) : clean (dress.wear core) = core := by
  have unprefixed : dress.prefixed = false := by
    by_contra prefixed
    rw [Bool.not_eq_false] at prefixed
    apply absent
    rw [Dress.wear, if_pos prefixed]
    simp [STD, str]
  have shape_ : dress.wear core = blanks dress.before ++ (core ++ (blanks dress.between ++
      (marks dress.run ++ blanks dress.after))) := by
    rw [Dress.wear, unprefixed]
    simp only [Bool.false_eq_true, if_false, List.append_nil, List.append_assoc]
  have bareCore : ':' ∉ core := by
    intro member
    rw [shape_] at absent
    exact absent (List.mem_append_right _ (List.mem_append_left _ member))
  have stripped : Text.strip (rstrip (Text.strip (dress.wear core))) = core := by
    rw [shape_]
    cases run_eq : dress.run with
    | nil =>
        have joined : blanks dress.between ++ (marks [] ++ blanks dress.after) =
            blanks (dress.between + dress.after) := List.replicate_append_replicate
        have same := rstrip_marks [] ends
        rw [marks, List.map_nil, List.append_nil] at same
        rw [joined, strip_blanks _ _ firm, same, strip_firm firm]
    | cons pointer run =>
        have filled : Firm (core ++ (blanks dress.between ++ marks (pointer :: run))) := by
          obtain ⟨first, begins, firstFirm⟩ := firm.first
          refine ⟨⟨first, by rw [List.head?_append, begins, Option.some_or], firstFirm⟩, ?_⟩
          have some_ : marks (pointer :: run) ≠ [] := List.cons_ne_nil _ _
          have last := List.getLast?_eq_some_getLast some_
          refine ⟨(marks (pointer :: run)).getLast some_, ?_, ?_⟩
          · rw [List.getLast?_append, List.getLast?_append, last, Option.some_or, Option.some_or]
          · rcases marks_mem (List.getLast_mem some_) with here | here <;> rw [here] <;> decide
        have outer : core ++ (blanks dress.between ++ (marks (pointer :: run) ++ blanks dress.after)) =
            core ++ (blanks dress.between ++ marks (pointer :: run)) ++ blanks dress.after := by
          simp only [List.append_assoc]
        have unmarked : ∀ char ∈ (core ++ blanks dress.between).getLast?, char ≠ '*' ∧ char ≠ '&' := by
          intro char member
          rw [List.getLast?_append] at member
          cases blank : (blanks dress.between).getLast? with
          | none =>
              rw [blank, Option.none_or] at member
              exact ends char member
          | some space =>
              rw [blank, Option.some_or] at member
              have known := blanks_mem (List.mem_of_getLast? blank)
              rw [← Option.some.inj member, known]
              decide
        have inner := strip_blanks 0 dress.between firm
        rw [blanks, List.replicate_zero, List.nil_append] at inner
        rw [outer, strip_blanks _ _ filled, ← List.append_assoc, rstrip_marks _ unmarked, inner]
  rw [clean, @remove_bare STD _ ':' (by decide) absent, stripped,
    @remove_bare VEC_OPS _ ':' (by decide) bareCore]

/-- A text that is passed over as a whole from every depth that is not below some. -/
def Passes (least : Int) (text : Text) : Prop :=
  ∀ depth, least ≤ depth → ∀ front rest,
    splitFrom depth front (text ++ rest) = splitFrom depth (front ++ text) rest

theorem Passes.append {least : Int} {left right : Text} (first : Passes least left)
    (second : Passes least right) : Passes least (left ++ right) := by
  intro depth deep front rest
  rw [List.append_assoc, first depth deep, second depth deep, List.append_assoc]

theorem Passes.deeper {text : Text} (passes : Passes 0 text) : Passes 1 text :=
  fun depth deep => passes depth (by omega)

theorem passes_char {char : Char} (least : Int) (open_ : char ≠ '<') (close : char ≠ '>')
    (comma : char ≠ ',') : Passes least [char] := by
  intro depth _ front rest
  rw [List.singleton_append, splitFrom, if_neg open_, if_neg close,
    if_neg (fun here => comma here.1)]
  simp

theorem passes_plain {text : Text} (least : Int)
    (plain_ : ∀ char ∈ text, char ≠ '<' ∧ char ≠ '>' ∧ char ≠ ',') : Passes least text := by
  induction text with
  | nil =>
      intro depth _ front rest
      rw [List.nil_append, List.append_nil]
  | cons char rest induction =>
      obtain ⟨⟨open_, close, comma⟩, later⟩ := List.forall_mem_cons.mp plain_
      exact (passes_char least open_ close comma).append (induction later)

theorem passes_comma : Passes 1 [','] := by
  intro depth deep front rest
  have below : ¬ (',' = ',' ∧ depth + ((if ',' = '<' then 1 else 0) -
      (if ',' = '>' then 1 else 0)) = 0) := by
    rintro ⟨-, zero⟩
    simp at zero
    omega
  rw [List.singleton_append, splitFrom, if_neg below]
  simp

theorem passes_bracketed {head inside : Text}
    (plain_ : ∀ char ∈ head, char ≠ '<' ∧ char ≠ '>' ∧ char ≠ ',') (passes : Passes 1 inside) :
    Passes 0 (bracketed head inside) := by
  have brackets : Passes 0 ('<' :: (inside ++ ['>'])) := by
    intro depth deep front rest
    have down : splitFrom depth front ('<' :: (inside ++ ['>']) ++ rest) =
        splitFrom (depth + 1) (front ++ ['<']) (inside ++ ('>' :: rest)) := by
      rw [List.cons_append, List.append_assoc, splitFrom, if_neg (fun here => by cases here.1)]
      rfl
    have up : splitFrom (depth + 1) (front ++ ['<'] ++ inside) ('>' :: rest) =
        splitFrom depth (front ++ ['<'] ++ inside ++ ['>']) rest := by
      have level : depth + 1 + ((if '>' = '<' then 1 else 0) - (if '>' = '>' then 1 else 0)) =
          depth := by
        rw [if_neg (by decide), if_pos rfl]
        omega
      rw [splitFrom, if_neg (fun here => by cases here.1), level]
    rw [down, passes (depth + 1) (by omega), up]
    simp
  exact (passes_plain 0 plain_).append brackets

theorem passes_wear (dress : Dress) {core : Text} (passes : Passes 0 core) :
    Passes 0 (dress.wear core) := by
  have blank : ∀ count, Passes 0 (blanks count) := by
    intro count
    apply passes_plain
    intro char member
    rw [blanks_mem member]
    decide
  have run : Passes 0 (marks dress.run) := by
    apply passes_plain
    intro char member
    rcases marks_mem member with rfl | rfl <;> decide
  have prefix_ : Passes 0 (if dress.prefixed then STD else []) := by
    apply passes_plain
    cases dress.prefixed <;> decide
  exact (((((blank _).append prefix_).append passes).append (blank _)).append run).append (blank _)

theorem names_passed : (∀ entry ∈ BY_NAME, ∀ char ∈ entry.1, char ≠ '<' ∧ char ≠ '>' ∧ char ≠ ',') ∧
    ∀ head ∈ SEQUENCES ++ MAPPINGS ++ [str "pair"],
      ∀ char ∈ head, char ≠ '<' ∧ char ≠ '>' ∧ char ≠ ',' := by
  decide +kernel

theorem strings_passed {name : Text} {record : Bool} (known : lookup STRINGS name = some record) :
    Passes 0 name := by
  have member := lookup_mem known
  rcases List.mem_cons.mp member with here | member
  · rw [(Prod.mk.inj here).1]
    exact passes_plain 0 (by decide)
  rcases List.mem_cons.mp member with here | member
  · rw [(Prod.mk.inj here).1]
    exact @passes_bracketed (str "basic_string") (str "char") (by decide)
      (passes_plain 1 (by decide))
  · rw [(Prod.mk.inj (List.mem_singleton.mp member)).1]
    exact passes_plain 0 (by decide)

theorem spelled_passes {text : Text} {node : Node} (spelled : Spells text node) : Passes 0 text := by
  induction spelled with
  | prim dress known => exact passes_wear dress (passes_plain 0 (names_passed.1 _ (lookup_mem known)))
  | str dress known => exact passes_wear dress (strings_passed known)
  | seq dress known spelled induction =>
      have plain_ := names_passed.2 _ (List.mem_append_left _ (List.mem_append_left _ known))
      exact passes_wear dress (passes_bracketed plain_ induction.deeper)
  | mapping dress known first second firstInduction secondInduction =>
      have plain_ := names_passed.2 _ (List.mem_append_left _ (List.mem_append_right _ known))
      have both := firstInduction.deeper.append (passes_comma.append secondInduction.deeper)
      exact passes_wear dress (passes_bracketed plain_ both)
  | pair dress first second firstInduction secondInduction =>
      have plain_ := names_passed.2 (str "pair") (by simp)
      have both := firstInduction.deeper.append (passes_comma.append secondInduction.deeper)
      exact passes_wear dress (passes_bracketed plain_ both)

theorem split_spelled {left right : Text} {node : Node} (spelled : Spells left node) :
    split (left ++ ',' :: right) = some (left, right) := by
  rw [split, spelled_passes spelled 0 (Int.le_refl 0), List.nil_append, splitFrom]
  simp

def kernel (text : Text) : Bool :=
  text.head?.any (!Text.isSpace ·) &&
    text.getLast?.any fun char => !Text.isSpace char && char != '*' && char != '&'

theorem kernel_firm {text : Text} (checked : kernel text = true) :
    Firm text ∧ ∀ char ∈ text.getLast?, char ≠ '*' ∧ char ≠ '&' := by
  rw [kernel, Bool.and_eq_true, Option.any_eq_true, Option.any_eq_true] at checked
  obtain ⟨⟨first, begins, firm⟩, last, ends, proper⟩ := checked
  rw [Bool.and_eq_true, Bool.and_eq_true, bne_iff_ne, bne_iff_ne, Bool.not_eq_true'] at proper
  rw [Bool.not_eq_true'] at firm
  refine ⟨⟨⟨first, begins, firm⟩, last, ends, proper.1.1⟩, ?_⟩
  intro char member
  rw [ends] at member
  rw [← Option.some.inj member]
  exact ⟨proper.1.2, proper.2⟩

theorem names_firm : (∀ entry ∈ BY_NAME, kernel entry.1 = true ∧ lookup STRINGS entry.1 = none) ∧
    (∀ entry ∈ STRINGS, kernel entry.1 = true) ∧
    ∀ head ∈ SEQUENCES ++ MAPPINGS ++ [str "pair"], head.head?.any (!Text.isSpace ·) = true := by
  decide +kernel

theorem bracketed_firm {head : Text} (begins : head.head?.any (!Text.isSpace ·) = true)
    (inside : Text) : kernel (bracketed head inside) = true := by
  have last : (bracketed head inside).getLast? = some '>' := by
    rw [bracketed, ← List.cons_append, ← List.append_assoc, List.getLast?_append]
    rfl
  have first : (bracketed head inside).head? = head.head? := by
    cases head with
    | nil => cases begins
    | cons char rest => rfl
  rw [kernel, first, begins, last]
  decide

theorem names_apart : ∀ head ∈ SEQUENCES ++ MAPPINGS ++ [str "pair"],
    (∀ entry ∈ BY_NAME, entry.1.takeWhile (· ≠ '<') ≠ head) ∧
      (∀ entry ∈ STRINGS, entry.1.takeWhile (· ≠ '<') ≠ head) ∧ '<' ∉ head := by
  decide +kernel

theorem lookup_none {Value : Type} {table : List (Text × Value)} {head inside : Text}
    (bare : '<' ∉ head) (apart : ∀ entry ∈ table, entry.1.takeWhile (· ≠ '<') ≠ head) :
    lookup table (bracketed head inside) = none := by
  rw [lookup, Option.map_eq_none_iff, List.find?_eq_none]
  intro entry member same
  apply apart entry member
  rw [of_decide_eq_true same, bracketed, List.takeWhile_append_of_pos]
  · rw [List.takeWhile_cons_of_neg (by simp), List.append_nil]
  · intro char inHead
    exact decide_eq_true fun here => bare (here ▸ inHead)

theorem shape_bracketed {head : Text} (known : head ∈ SEQUENCES ++ MAPPINGS ++ [str "pair"])
    (inside : Text) :
    shape (bracketed head inside) =
      if head ∈ SEQUENCES then .seq inside
      else if head = str "bitset" ∧ isdigit (Text.strip inside) then .bits
      else if head ∈ MAPPINGS then
        match split inside with
        | none => .unknown
        | some (key, value) => .mapping key value
      else if head = str "pair" then
        match split inside with
        | none => .unknown
        | some (first, second) => .pair first second
      else .unknown := by
  obtain ⟨types, strings, bare⟩ := names_apart head known
  have parted : Text.partition '<' (bracketed head inside) = (head, true, inside ++ ['>']) := by
    rw [bracketed, Text.partition_append bare, Text.partition_self, List.append_nil]
  have closed : ¬ (true = false ∨ (inside ++ ['>']).getLast? ≠ some '>') := by
    rintro (here | here)
    · cases here
    · exact here List.getLast?_concat
  rw [shape, lookup_none bare strings, lookup_none bare types, parted]
  dsimp only
  rw [if_neg closed, List.dropLast_concat]

theorem shape_worn (dress : Dress) {core : Text} (checked : kernel core = true)
    (absent : ':' ∉ dress.wear core) : shape (clean (dress.wear core)) = shape core := by
  obtain ⟨firm, ends⟩ := kernel_firm checked
  rw [clean_wear dress firm ends absent]

def Shape.tree : Shape → Option Node
  | .unknown => none
  | .str record => some (.str record)
  | .prim found => some (.prim found)
  | .seq inside => (parse inside).map .seq
  | .bits => some (.seq (.prim boolPrim))
  | .mapping key value => do
      let key ← parse key
      let value ← parse value
      return .mapping key value
  | .pair first second => do
      let first ← parse first
      let second ← parse second
      return .pair first second

theorem parse_tree (name : Text) : parse name = (shape (clean name)).tree := by
  rw [parse]
  split
  case h_1 taken => rw [taken]; rfl
  case h_2 taken => rw [taken]; rfl
  case h_3 taken => rw [taken]; rfl
  case h_4 taken => rw [taken]; rfl
  case h_5 taken => rw [taken]; rfl
  case h_6 taken => rw [taken]; rfl
  case h_7 taken => rw [taken]; rfl

theorem absent_inside (dress : Dress) {core part : Text} (sub : part ⊆ core)
    (absent : ':' ∉ dress.wear core) : ':' ∉ part := by
  intro member
  apply absent
  rw [Dress.wear, List.append_assoc, List.append_assoc, List.append_assoc, List.append_assoc]
  exact List.mem_append_right _ (List.mem_append_right _ (List.mem_append_left _ (sub member)))

theorem bare_parsed {text : Text} {node : Node} (spelled : Spells text node) (absent : ':' ∉ text) :
    parse text = some node := by
  induction spelled with
  | prim dress known =>
      obtain ⟨checked, other⟩ := names_firm.1 _ (lookup_mem known)
      rw [parse_tree, shape_worn dress checked absent, shape, other, known]
      rfl
  | str dress known =>
      have checked := names_firm.2.1 _ (lookup_mem known)
      rw [parse_tree, shape_worn dress checked absent, shape, known]
      rfl
  | @seq dress head inside item known spelled induction =>
      have member := List.mem_append_left [str "pair"] (List.mem_append_left MAPPINGS known)
      have checked := bracketed_firm (names_firm.2.2 _ member) inside
      have inner := induction (absent_inside dress (by
        intro char here
        simp [bracketed, here]) absent)
      rw [parse_tree, shape_worn dress checked absent, shape_bracketed member, if_pos known,
        Shape.tree, inner]
      rfl
  | @mapping dress head left right key value known first second firstInduction secondInduction =>
      have member := List.mem_append_left [str "pair"] (List.mem_append_right SEQUENCES known)
      have checked := bracketed_firm (names_firm.2.2 _ member) (left ++ ',' :: right)
      have one := firstInduction (absent_inside dress (by
        intro char inside
        simp [bracketed, inside]) absent)
      have other := secondInduction (absent_inside dress (by
        intro char inside
        simp [bracketed, inside]) absent)
      have apart : ∀ head ∈ MAPPINGS, head ∉ SEQUENCES ∧ head ≠ str "bitset" := by decide +kernel
      obtain ⟨noSequence, noBits⟩ := apart head known
      rw [parse_tree, shape_worn dress checked absent, shape_bracketed member, if_neg noSequence,
        if_neg (fun here => noBits here.1), if_pos known, split_spelled first, Shape.tree, one, other]
      rfl
  | @pair dress left right one other first second firstInduction secondInduction =>
      have member : str "pair" ∈ SEQUENCES ++ MAPPINGS ++ [str "pair"] := by simp
      have checked := bracketed_firm (names_firm.2.2 _ member) (left ++ ',' :: right)
      have here := firstInduction (absent_inside dress (by
        intro char inside
        simp [bracketed, inside]) absent)
      have there := secondInduction (absent_inside dress (by
        intro char inside
        simp [bracketed, inside]) absent)
      have apart : str "pair" ∉ SEQUENCES ∧ str "pair" ≠ str "bitset" ∧ str "pair" ∉ MAPPINGS := by
        decide +kernel
      obtain ⟨noSequence, noBits, noMapping⟩ := apart
      rw [parse_tree, shape_worn dress checked absent, shape_bracketed member, if_neg noSequence,
        if_neg (fun taken => noBits taken.1), if_neg noMapping, if_pos rfl, split_spelled first,
        Shape.tree, here, there]
      rfl

/-- Every spelling of a type is read as that type's tree. -/
theorem spelling_parsed {text : Text} {node : Node} (spelled : Spells text node) :
    parse text = some node := by
  obtain ⟨tokens, bare, rfl, rest⟩ := spelled_tokens spelled
  have removed := remove_rendered bare
  have absent : ':' ∉ kept tokens := by
    intro member
    obtain ⟨token, inside, same⟩ := List.mem_filterMap.mp member
    rw [id] at same
    exact bare ':' (same ▸ inside) rfl
  have again : remove STD (kept tokens) = kept tokens := remove_bare (by decide) absent
  have same : clean (rendered tokens) = clean (kept tokens) := by
    rw [clean, clean, removed, again]
  rw [parse_tree, same, ← parse_tree]
  exact bare_parsed rest absent

/-- A map in brackets of its own, with prefixes, blanks and pointers at every level. -/
theorem worn_map_parsed :
    parse (str "std::map< std::string , std::vector<  unsigned int* > & >*&") =
      some (.mapping (.str true) (.seq (.prim ⟨str "uint32", 'I', 4⟩))) := by
  have key : Spells (Dress.wear ⟨1, true, 1, [], 0⟩ (str "string")) (.str true) :=
    .str _ (by decide +kernel)
  have item : Spells (Dress.wear ⟨2, false, 0, [true], 1⟩ (str "unsigned int"))
      (.prim ⟨str "uint32", 'I', 4⟩) := .prim _ (by decide +kernel)
  have vector : str "vector" ∈ SEQUENCES := by decide +kernel
  have map : str "map" ∈ MAPPINGS := by decide +kernel
  have value := Spells.seq ⟨1, true, 1, [false], 1⟩ vector item
  have whole := Spells.mapping ⟨0, true, 0, [true, false], 0⟩ map key value
  have text : Dress.wear ⟨0, true, 0, [true, false], 0⟩ (bracketed (str "map")
      (Dress.wear ⟨1, true, 1, [], 0⟩ (str "string") ++ ',' ::
        Dress.wear ⟨1, true, 1, [false], 1⟩ (bracketed (str "vector")
          (Dress.wear ⟨2, false, 0, [true], 1⟩ (str "unsigned int"))))) =
      str "std::map< std::string , std::vector<  unsigned int* > & >*&" := by decide +kernel
  rw [← text]
  exact spelling_parsed whole

def Node.Known : Node → Prop
  | .prim number => number ∈ PRIMS.map Prod.fst
  | .str _ => True
  | .seq item => item.Known
  | .mapping key value => key.Known ∧ value.Known
  | .pair first second => first.Known ∧ second.Known

/-- A type without how its strings are stored, which its name does not say. -/
def Node.named : Node → Node
  | .prim number => .prim number
  | .str _ => .str true
  | .seq item => .seq item.named
  | .mapping key value => .mapping key.named value.named
  | .pair first second => .pair first.named second.named

theorem shape_prim {text : Text} {prim : Prim} (shaped : shape text = .prim prim) :
    lookup BY_NAME text = some prim := by
  unfold shape at shaped
  split at shaped
  · cases shaped
  · split at shaped
    case h_1 found =>
        cases shaped
        exact found
    case h_2 =>
        dsimp only at shaped
        split_ifs at shaped
        all_goals split at shaped <;> cases shaped

theorem prim_known {text : Text} {prim : Prim} (known : lookup BY_NAME text = some prim) :
    prim ∈ PRIMS.map Prod.fst := by
  obtain ⟨entry, listed, spelled⟩ := List.mem_flatMap.mp (lookup_mem known)
  obtain ⟨spelling, -, same⟩ := List.mem_map.mp spelled
  cases same
  exact List.mem_map_of_mem listed

theorem parse_known {name : Text} {node : Node} (read : parse name = some node) : node.Known := by
  induction name using parse.induct generalizing node with
  | case1 name unknown =>
      rw [parse_tree, unknown] at read
      cases read
  | case2 name record taken =>
      rw [parse_tree, taken] at read
      cases read
      exact trivial
  | case3 name number taken =>
      rw [parse_tree, taken] at read
      cases read
      exact prim_known (shape_prim taken)
  | case4 name inside taken induction =>
      rw [parse_tree, taken] at read
      obtain ⟨item, inner, rfl⟩ := Option.map_eq_some_iff.mp read
      have below : item.Known := induction inner
      exact below
  | case5 name taken =>
      rw [parse_tree, taken] at read
      cases read
      exact List.mem_cons_self
  | case6 name key value taken first second =>
      rw [parse_tree, taken] at read
      obtain ⟨one, keyed, read⟩ := Option.bind_eq_some_iff.mp read
      obtain ⟨other, valued, read⟩ := Option.bind_eq_some_iff.mp read
      cases read
      exact ⟨first keyed, second valued⟩
  | case7 name left right taken first second =>
      rw [parse_tree, taken] at read
      obtain ⟨one, front, read⟩ := Option.bind_eq_some_iff.mp read
      obtain ⟨other, behind, read⟩ := Option.bind_eq_some_iff.mp read
      cases read
      exact ⟨first front, second behind⟩

def bracketMarks : Text := ['[', ']', ',']

def Marked (rest : Text) : Prop := ∀ char ∈ rest.head?, char ∈ bracketMarks

def Node.word : Node → Text
  | .prim number => number.typename
  | .str _ => Lib.str "str"
  | .seq _ => Lib.str "list"
  | .pair _ _ => Lib.str "tuple"
  | .mapping _ _ => Lib.str "dict"

def Node.inside : Node → Text
  | .prim _ => []
  | .str _ => []
  | .seq item => '[' :: (pyName item ++ [']'])
  | .pair first second => '[' :: (pyName first ++ ',' :: ' ' :: (pyName second ++ [']']))
  | .mapping key value => '[' :: (pyName key ++ ',' :: ' ' :: (pyName value ++ [']']))

theorem py_name_word (node : Node) : pyName node = node.word ++ node.inside := by
  cases node <;> simp [pyName, Node.word, Node.inside, str]

theorem words_known : ∀ prim ∈ PRIMS.map Prod.fst,
    (∀ char ∈ prim.typename, char ∉ bracketMarks) ∧
      prim.typename ∉ [str "str", str "list", str "tuple", str "dict"] ∧
      ∀ other ∈ PRIMS.map Prod.fst, prim.typename = other.typename → prim = other := by
  decide +kernel

theorem word_bare {node : Node} (known : node.Known) : ∀ char ∈ node.word, char ∉ bracketMarks := by
  cases node with
  | prim prim => exact (words_known prim known).1
  | str => exact (by decide : ∀ char ∈ str "str", char ∉ bracketMarks)
  | seq => exact (by decide : ∀ char ∈ str "list", char ∉ bracketMarks)
  | mapping => exact (by decide : ∀ char ∈ str "dict", char ∉ bracketMarks)
  | pair => exact (by decide : ∀ char ∈ str "tuple", char ∉ bracketMarks)

theorem marked_cons {char : Char} (rest : Text) (mark : char ∈ bracketMarks) :
    Marked (char :: rest) := by
  intro head here
  cases here
  exact mark

theorem inside_marked (node : Node) {rest : Text} (marked : Marked rest) :
    Marked (node.inside ++ rest) := by
  cases node with
  | prim => exact marked
  | str => exact marked
  | seq => exact marked_cons _ (by decide)
  | mapping => exact marked_cons _ (by decide)
  | pair => exact marked_cons _ (by decide)

theorem word_cut {left right behind after : Text} (bare : ∀ char ∈ left, char ∉ bracketMarks)
    (plain : ∀ char ∈ right, char ∉ bracketMarks) (ends : Marked behind) (stops : Marked after)
    (same : left ++ behind = right ++ after) : left = right ∧ behind = after := by
  induction left generalizing right with
  | nil =>
      cases right with
      | nil => exact ⟨rfl, same⟩
      | cons char rest =>
          rw [List.nil_append] at same
          rw [same] at ends
          exact absurd (ends char rfl) (plain char List.mem_cons_self)
  | cons char rest induction =>
      rw [List.forall_mem_cons] at bare
      cases right with
      | nil =>
          rw [List.nil_append] at same
          rw [← same] at stops
          exact absurd (stops char rfl) bare.1
      | cons other others =>
          rw [List.forall_mem_cons] at plain
          rw [List.cons_append, List.cons_append, List.cons.injEq] at same
          obtain ⟨front, whole⟩ := induction bare.2 plain.2 same.2
          exact ⟨by rw [same.1, front], whole⟩

theorem words_cut {left right : Node} (known : left.Known) (listed : right.Known)
    {behind after : Text} (ends : Marked behind) (stops : Marked after)
    (same : pyName left ++ behind = pyName right ++ after) :
    left.word = right.word ∧ left.inside ++ behind = right.inside ++ after := by
  rw [py_name_word, py_name_word right, List.append_assoc, List.append_assoc] at same
  exact word_cut (word_bare known) (word_bare listed) (inside_marked _ ends) (inside_marked _ stops)
    same

/-- The name of a type, followed by a mark, is read in one way. -/
def Cut (left : Node) : Prop := ∀ right behind after, left.Known → right.Known →
  Marked behind → Marked after → pyName left ++ behind = pyName right ++ after →
    left.named = right.named ∧ behind = after

theorem both_cut {one two first second : Node} (cut : Cut one) (again : Cut two)
    (known : one.Known ∧ two.Known) (listed : first.Known ∧ second.Known) {behind after : Text}
    (same : '[' :: (pyName one ++ ',' :: ' ' :: (pyName two ++ [']'])) ++ behind =
      '[' :: (pyName first ++ ',' :: ' ' :: (pyName second ++ [']'])) ++ after) :
    one.named = first.named ∧ two.named = second.named ∧ behind = after := by
  simp only [List.cons_append, List.append_assoc, List.nil_append, List.cons.injEq, true_and] at same
  obtain ⟨fronts, rest⟩ := cut _ _ _ known.1 listed.1 (marked_cons _ (by decide))
    (marked_cons _ (by decide)) same
  simp only [List.cons.injEq, true_and] at rest
  obtain ⟨backs, closed⟩ := again _ _ _ known.2 listed.2 (marked_cons _ (by decide))
    (marked_cons _ (by decide)) rest
  exact ⟨fronts, backs, (List.cons.inj closed).2⟩

def Node.kind : Node → Nat
  | .prim _ => 0
  | .str _ => 1
  | .seq _ => 2
  | .mapping _ _ => 3
  | .pair _ _ => 4

theorem number_word {number : Prim} {other : Node} (known : number ∈ PRIMS.map Prod.fst)
    (same : number.typename = other.word) : other.kind = 0 := by
  have apart := (words_known number known).2.1
  rw [same] at apart
  cases other with
  | prim => rfl
  | str => exact absurd List.mem_cons_self apart
  | seq => exact absurd (by simp [Node.word]) apart
  | mapping => exact absurd (by simp [Node.word]) apart
  | pair => exact absurd (by simp [Node.word]) apart

theorem word_tells {left right : Node} (known : left.Known) (listed : right.Known)
    (same : left.word = right.word) : left.kind = right.kind := by
  cases left with
  | prim number => exact (number_word known same).symm
  | _ =>
      cases right with
      | prim other => exact number_word listed same.symm
      | _ => first | rfl | exact absurd same (by simp [Node.word, Lib.str])

theorem py_name_cut (left : Node) : Cut left := by
  induction left with
  | prim number =>
      intro right behind after known listed ends stops same
      obtain ⟨words, rest⟩ := words_cut known listed ends stops same
      have tells := word_tells known listed words
      cases right with
      | prim other =>
          have one := (words_known number known).2.2 other listed words
          exact ⟨congrArg Node.prim one, rest⟩
      | _ => cases tells
  | str record =>
      intro right behind after known listed ends stops same
      obtain ⟨words, rest⟩ := words_cut known listed ends stops same
      have tells := word_tells known listed words
      cases right with
      | str other => exact ⟨rfl, rest⟩
      | _ => cases tells
  | seq item induction =>
      intro right behind after known listed ends stops same
      obtain ⟨words, rest⟩ := words_cut known listed ends stops same
      have tells := word_tells known listed words
      cases right with
      | seq other =>
          simp only [Node.inside, List.cons_append, List.append_assoc, List.nil_append,
            List.cons.injEq, true_and] at rest
          have marked (rest : Text) := marked_cons rest (by decide : ']' ∈ bracketMarks)
          obtain ⟨items, closed⟩ := induction other _ _ known listed (marked _) (marked _) rest
          exact ⟨congrArg Node.seq items, (List.cons.inj closed).2⟩
      | _ => cases tells
  | mapping key value first second =>
      intro right behind after known listed ends stops same
      obtain ⟨words, rest⟩ := words_cut known listed ends stops same
      have tells := word_tells known listed words
      cases right with
      | mapping other held =>
          obtain ⟨keys, values, closed⟩ := both_cut first second known listed rest
          exact ⟨congrArg₂ Node.mapping keys values, closed⟩
      | _ => cases tells
  | pair one other first second =>
      intro right behind after known listed ends stops same
      obtain ⟨words, rest⟩ := words_cut known listed ends stops same
      have tells := word_tells known listed words
      cases right with
      | pair left right =>
          obtain ⟨fronts, backs, closed⟩ := both_cut first second known listed rest
          exact ⟨congrArg₂ Node.pair fronts backs, closed⟩
      | _ => cases tells

/-- Two types that are read have one name where they are one type, however their strings are
stored. -/
theorem py_name_iff {first second : Text} {left right : Node} (one : parse first = some left)
    (other : parse second = some right) : pyName left = pyName right ↔ left.named = right.named := by
  have plain (node : Node) : pyName node.named = pyName node := by
    induction node with
    | prim => rfl
    | str => rfl
    | seq item induction => rw [Node.named, pyName, induction, pyName]
    | mapping key value first second => rw [Node.named, pyName, first, second, pyName]
    | pair key value first second => rw [Node.named, pyName, first, second, pyName]
  constructor
  · intro same
    have whole := congrArg (· ++ ([] : Text)) same
    exact (py_name_cut left right [] [] (parse_known one) (parse_known other) nofun nofun whole).1
  · intro same
    rw [← plain left, same, plain right]

end XRootDClient.Root.Cxx

import XRootDClient.Lib.BigEndian
import XRootDClient.Lib.Dict
import XRootDClient.Lib.Lempel

/-!
# LZ4 blocks

A block is a run of sequences and the literals behind the last of them. A sequence
starts with a token that holds both its lengths, four bits each; a length of fifteen
or more is continued in bytes of their own. `_lz4_pack` takes the most recent match
of four bytes within the window; `_lz4` undoes any block.
-/

set_option autoImplicit false

namespace XRootDClient.Root

open Lib Lib.BigEndian Lib.Extent Lib.Lempel

inductive PackError
  | formatError (message : String)
  | unsupportedFeatureError (message : String)
  /-- `ValueError`, for an algorithm that is not one of the four. -/
  | valueError (algorithm : String)
  | overflowError (message : String)
  /-- What a codec of the standard library raises itself. -/
  | codecError (message : String)
  deriving DecidableEq

/-- `value.to_bytes(width, "little")`, for a value that fits. -/
def little (width value : Nat) : Bytes := (encode width value).reverse

/-- `int.from_bytes(data, "little")`. -/
def ofLittle (data : Bytes) : Nat := decode data.reverse

@[simp] theorem little_length (width value : Nat) : (little width value).length = width := by
  simp [little]

theorem of_little {width value : Nat} (bounded : value < 256 ^ width) :
    ofLittle (little width value) = value := by
  rw [ofLittle, little, List.reverse_reverse, decode_encode bounded]

namespace Lz4

def middle : PackError := .formatError "an LZ4 block ends in the middle of a sequence"

def before (distance : Nat) : PackError :=
  .formatError s!"an LZ4 match points {distance} bytes before the block"

def promised (given size : Nat) : PackError :=
  .formatError s!"an LZ4 block gave {given} bytes where {size} were promised"

/-- The bytes that continue a length, added to what the token had of it. -/
def continued : Nat → Bytes → Option (Nat × Bytes)
  | _, [] => none
  | length, more :: rest =>
      if more.toNat = 255 then continued (length + 255) rest
      else some (length + more.toNat, rest)

def lengthOf (nibble : Nat) (rest : Bytes) : Option (Nat × Bytes) :=
  if nibble = 15 then continued nibble rest else some (nibble, rest)

/-- `for index in range(start, start + match): out.append(out[index])`. -/
def appended : Nat → Nat → Bytes → Option Bytes
  | _, 0, out => some out
  | start, count + 1, out => do
      let byte ← out[start]?
      appended (start + 1) count (out ++ [byte])

def repeat_ (offset length : Nat) (out : Bytes) : Except PackError Bytes :=
  if out.length < offset then .error (before (offset - out.length))
  else if length ≤ offset then .ok (out ++ fetch out (out.length - offset) length)
  else (appended (out.length - offset) length out).elim (.error middle) .ok

/-- The loop of `_lz4`. Every round takes a token, so a round for each byte is enough. -/
def lz4From : Nat → Bytes → Bytes → Except PackError Bytes
  | _, [], out => .ok out
  | 0, _ :: _, _ => .error middle
  | rounds + 1, token :: rest, out =>
      match lengthOf (token.toNat >>> 4) rest with
      | none => .error middle
      | some (literals, rest) =>
          let out := out ++ rest.take literals
          match rest.drop literals with
          | [] => .ok out
          | [_] => .error middle
          | low :: high :: rest =>
              let offset := low.toNat ||| (high.toNat <<< 8)
              match lengthOf (token.toNat &&& 0xF) rest with
              | none => .error middle
              | some (length, rest) => do
                  let out ← repeat_ offset (length + 4) out
                  lz4From rounds rest out

def lz4 (src : Bytes) (size : Nat) : Except PackError Bytes := do
  let out ← lz4From src.length src []
  if out.length ≠ size then .error (promised out.length size) else .ok out

def extended (value : Nat) : Bytes :=
  if 255 ≤ value then 255 :: extended (value - 255) else [UInt8.ofNat value]

def extend (value : Nat) : Bytes := extended (value - 15)

def continuation (length : Nat) : Bytes := if 15 ≤ length then extend length else []

def token (literals length : Nat) : UInt8 :=
  UInt8.ofNat ((min literals 15 <<< 4) ||| min length 15)

def sequenceBytes (sequence : Sequence UInt8) : Bytes :=
  token sequence.literals.length (sequence.length - 4) ::
    (continuation sequence.literals.length ++ sequence.literals ++
      little 2 sequence.offset ++ continuation (sequence.length - 4))

def lastBytes (last : Bytes) : Bytes := token last.length 0 :: (continuation last.length ++ last)

def blockBytes (sequences : List (Sequence UInt8)) (last : Bytes) : Bytes :=
  sequences.flatMap sequenceBytes ++ lastBytes last

def matched (src : Bytes) (found pos length : Nat) : Nat :=
  if pos + length + 5 < src.length ∧ src[found + length]? = src[pos + length]? then
    matched src found pos (length + 1)
  else length
termination_by src.length - (pos + length)

theorem matched_ge (src : Bytes) (found pos length : Nat) :
    length ≤ matched src found pos length := by
  fun_induction matched src found pos length with
  | case1 length goes induction => omega
  | case2 length stops => exact Nat.le_refl length

def packFrom (src : Bytes) (anchor pos : Nat) (recent : Dict Bytes Nat) (out : Bytes) : Bytes :=
  if pos + 12 < src.length then
    let seq := fetch src pos 4
    match recent.get? seq with
    | none => packFrom src anchor (pos + 1) (recent.set seq pos) out
    | some found =>
        if pos - found > 0xFFFF then packFrom src anchor (pos + 1) (recent.set seq pos) out
        else
          let length := matched src found pos 4
          let sequence : Sequence UInt8 :=
            { literals := fetch src anchor (pos - anchor), offset := pos - found, length }
          packFrom src (pos + length) (pos + length) (recent.set seq pos)
            (out ++ sequenceBytes sequence)
  else out ++ lastBytes (src.drop anchor)
termination_by src.length - pos
decreasing_by
  · omega
  · omega
  · have grown := matched_ge src found pos 4
    omega

def lz4Pack (src : Bytes) : Bytes := packFrom src 0 0 ∅ []

/-- What the format says a block is: its sequences, and the literals behind them. -/
def sequencesOf : Nat → Bytes → Option (List (Sequence UInt8) × Bytes)
  | _, [] => some ([], [])
  | 0, _ :: _ => none
  | rounds + 1, token :: rest =>
      match lengthOf (token.toNat >>> 4) rest with
      | none => none
      | some (literals, rest) =>
          match rest.drop literals with
          | [] => some ([], rest)
          | [_] => none
          | low :: high :: more =>
              match lengthOf (token.toNat &&& 0xF) more with
              | none => none
              | some (length, more) =>
                  (sequencesOf rounds more).map fun (sequences, last) =>
                    (⟨rest.take literals, low.toNat ||| (high.toNat <<< 8), length + 4⟩ :: sequences,
                      last)

def parse (block : Bytes) : Option (List (Sequence UInt8) × Bytes) :=
  sequencesOf block.length block

/-- The rules for the end of a block, and the window. -/
structure Obeys (size : Nat) (sequences : List (Sequence UInt8)) (last : Bytes) : Prop where
  literal : sequences ≠ [] → 5 ≤ last.length
  early : ∀ start ∈ turns 0 sequences, start + 12 < size
  window : ∀ sequence ∈ sequences, 1 ≤ sequence.offset ∧ sequence.offset ≤ 65535

structure Formed (sequence : Sequence UInt8) : Prop where
  long : 4 ≤ sequence.length
  near : sequence.offset < 65536

theorem continued_extended (length value : Nat) (rest : Bytes) :
    continued length (extended value ++ rest) = some (length + value, rest) := by
  induction value using Nat.strongRecOn generalizing length with
  | ind value induction =>
      rw [extended]
      split
      case isTrue more =>
          rw [List.cons_append, continued, if_pos (by rfl), induction (value - 255) (by omega),
            show length + 255 + (value - 255) = length + value by omega]
      case isFalse last =>
          have kept : (UInt8.ofNat value).toNat = value := by
            rw [UInt8.toNat_ofNat']
            omega
          rw [List.singleton_append, continued, kept, if_neg (by omega)]

theorem length_of_continuation (length : Nat) (rest : Bytes) :
    lengthOf (min length 15) (continuation length ++ rest) = some (length, rest) := by
  rw [lengthOf, continuation]
  by_cases long : 15 ≤ length
  · rw [if_pos long, if_pos (by omega), extend, continued_extended,
      show min length 15 + (length - 15) = length by omega]
  · rw [if_neg long, if_neg (by omega), List.nil_append, Nat.min_eq_left (by omega)]

theorem token_cut : ∀ high < 16, ∀ low < 16,
    (UInt8.ofNat ((high <<< 4) ||| low)).toNat >>> 4 = high ∧
      (UInt8.ofNat ((high <<< 4) ||| low)).toNat &&& 0xF = low := by
  decide

@[simp] theorem token_literals (literals length : Nat) :
    (token literals length).toNat >>> 4 = min literals 15 :=
  (token_cut _ (by omega) _ (by omega)).1

@[simp] theorem token_length (literals length : Nat) :
    (token literals length).toNat &&& 0xF = min length 15 :=
  (token_cut _ (by omega) _ (by omega)).2

theorem little_two (value : Nat) :
    little 2 value = [UInt8.ofNat value, UInt8.ofNat (value / 256)] := by
  simp [little, encode]

theorem offset_read {value : Nat} (near : value < 65536) :
    (UInt8.ofNat value).toNat ||| ((UInt8.ofNat (value / 256)).toNat <<< 8) = value := by
  rw [UInt8.toNat_ofNat', UInt8.toNat_ofNat', Nat.or_comm, ← Nat.shiftLeft_add_eq_or_of_lt (by omega),
    Nat.shiftLeft_eq]
  omega

theorem parse_last (rounds : Nat) (last : Bytes) :
    sequencesOf (rounds + 1) (lastBytes last) = some ([], last) := by
  have none : last.drop last.length = [] := List.drop_length
  rw [lastBytes, sequencesOf, token_literals, length_of_continuation]
  simp only [none]

theorem parse_sequence {sequence : Sequence UInt8} (formed : Formed sequence) (rounds : Nat)
    (rest : Bytes) :
    sequencesOf (rounds + 1) (sequenceBytes sequence ++ rest) =
      (sequencesOf rounds rest).map fun (sequences, last) => (sequence :: sequences, last) := by
  have length : sequence.length - 4 + 4 = sequence.length := by
    have long := formed.long
    omega
  rw [sequenceBytes, List.cons_append, sequencesOf, token_literals, token_length, List.append_assoc,
    List.append_assoc, List.append_assoc, length_of_continuation]
  simp only [List.drop_left, List.take_left, little_two, List.cons_append, List.nil_append,
    length_of_continuation, offset_read formed.near, length]

theorem parse_block {sequences : List (Sequence UInt8)} {rounds : Nat}
    (formed : ∀ sequence ∈ sequences, Formed sequence) (last : Bytes)
    (enough : sequences.length < rounds) :
    sequencesOf rounds (blockBytes sequences last) = some (sequences, last) := by
  induction sequences generalizing rounds with
  | nil =>
      obtain ⟨rounds, rfl⟩ := Nat.exists_eq_succ_of_ne_zero (Nat.ne_of_gt enough)
      exact parse_last rounds last
  | cons sequence rest induction =>
      rw [List.length_cons] at enough
      obtain ⟨rounds, rfl⟩ := Nat.exists_eq_succ_of_ne_zero (Nat.ne_of_gt (Nat.zero_lt_of_lt enough))
      have further : sequencesOf rounds (blockBytes rest last) = some (rest, last) :=
        induction (fun other member => formed other (List.mem_cons_of_mem _ member)) (by omega)
      have first := parse_sequence (formed sequence List.mem_cons_self) rounds (blockBytes rest last)
      rw [further] at first
      rw [blockBytes, List.flatMap_cons, List.append_assoc]
      exact first

theorem block_long (sequences : List (Sequence UInt8)) (last : Bytes) :
    sequences.length < (blockBytes sequences last).length := by
  induction sequences with
  | nil => simp [blockBytes, lastBytes]
  | cons sequence rest induction =>
      have split : (blockBytes (sequence :: rest) last).length =
          (sequenceBytes sequence).length + (blockBytes rest last).length := by
        simp only [blockBytes, List.flatMap_cons, List.length_append]
        omega
      have token : 0 < (sequenceBytes sequence).length := by simp [sequenceBytes]
      rw [split, List.length_cons]
      omega

theorem appended_repeated {offset count : Nat} {out : Bytes} (back : 0 < offset)
    (within : offset ≤ out.length) :
    appended (out.length - offset) count out = some (repeated offset count out) := by
  induction count generalizing out with
  | zero => rfl
  | succ count induction =>
      have inside : out.length - offset < out.length := by omega
      have next : out.length - offset + 1 = (out ++ [out[out.length - offset]]).length - offset := by
        rw [List.length_append, List.length_singleton]
        omega
      rw [appended, repeated, List.getElem?_eq_getElem inside]
      simp only [Option.bind_eq_bind, Option.bind_some, Option.toList_some]
      rw [next, induction (by rw [List.length_append]; omega)]

theorem repeat_repeated {offset length : Nat} {out : Bytes} (back : 0 < offset)
    (within : offset ≤ out.length) : repeat_ offset length out = .ok (repeated offset length out) := by
  rw [repeat_, if_neg (by omega)]
  split
  case isTrue apart => rw [repeated_apart apart within]
  case isFalse overlapping =>
      rw [appended_repeated back within]
      rfl

theorem lz4_from_expand {rounds : Nat} {src last out : Bytes} {sequences : List (Sequence UInt8)}
    (parsed : sequencesOf rounds src = some (sequences, last)) (points : Points out.length sequences) :
    lz4From rounds src out = .ok (expand sequences out ++ last) := by
  induction rounds generalizing src out sequences with
  | zero =>
      cases src with
      | nil =>
          cases parsed
          simp [lz4From, expand]
      | cons token rest => cases parsed
  | succ rounds induction =>
      cases src with
      | nil =>
          cases parsed
          simp [lz4From, expand]
      | cons token rest =>
          rw [sequencesOf] at parsed
          rw [lz4From]
          split at parsed
          case h_1 => cases parsed
          case h_2 literals rest read =>
              dsimp only
              split at parsed
              case h_1 ends =>
                  cases parsed
                  rw [List.take_of_length_le (List.drop_eq_nil_iff.mp ends)]
                  rfl
              case h_2 => cases parsed
              case h_3 low high more cut =>
                  split at parsed
                  case h_1 => cases parsed
                  case h_2 length more counted =>
                      obtain ⟨⟨others, behind⟩, further, made⟩ := Option.map_eq_some_iff.mp parsed
                      cases made
                      obtain ⟨back, within, points⟩ := points
                      have reached : low.toNat ||| (high.toNat <<< 8) ≤
                          (out ++ rest.take literals).length := by
                        rw [List.length_append]
                        exact within
                      have sized : (repeated (low.toNat ||| (high.toNat <<< 8)) (length + 4)
                          (out ++ rest.take literals)).length =
                          out.length + (rest.take literals).length + (length + 4) := by
                        rw [repeated_length back reached, List.length_append]
                      simp only [repeat_repeated back reached]
                      exact induction further (by rw [sized]; exact points)

/-- What is remembered of a place is the four bytes there. -/
def Recalls (src : Bytes) (pos : Nat) (recent : Dict Bytes Nat) : Prop :=
  ∀ seq found, recent.get? seq = some found → found < pos ∧ fetch src found 4 = seq

theorem Recalls.next {src : Bytes} {pos further : Nat} {recent : Dict Bytes Nat}
    (recalls : Recalls src pos recent) (ahead : pos < further) :
    Recalls src further (recent.set (fetch src pos 4) pos) := by
  intro seq found got
  rw [Dict.get_set] at got
  split at got
  case isTrue same =>
      cases got
      exact ⟨ahead, same.symm⟩
  case isFalse other =>
      obtain ⟨earlier, there⟩ := recalls seq found got
      exact ⟨Nat.lt_trans earlier ahead, there⟩

theorem matched_agrees (src : Bytes) (found pos length : Nat)
    (agrees : ∀ index < length, src[found + index]? = src[pos + index]?) :
    ∀ index < matched src found pos length, src[found + index]? = src[pos + index]? := by
  fun_induction matched src found pos length with
  | case1 length goes induction =>
      apply induction
      intro index below
      rcases Nat.lt_succ_iff_lt_or_eq.mp below with shorter | rfl
      · exact agrees index shorter
      · exact goes.2
  | case2 length stops => exact agrees

theorem matched_inside {src : Bytes} {found pos length : Nat}
    (inside : pos + length + 5 ≤ src.length) :
    pos + matched src found pos length + 5 ≤ src.length := by
  fun_induction matched src found pos length with
  | case1 length goes induction => exact induction (by omega)
  | case2 length stops => exact inside

theorem fetch_agrees {src : Bytes} {found pos count : Nat}
    (same : fetch src found count = fetch src pos count) :
    ∀ index < count, src[found + index]? = src[pos + index]? := by
  intro index below
  have here := congrArg (fun bytes : Bytes => bytes[index]?) same
  simpa [fetch, List.getElem?_take_of_lt below, List.getElem?_drop] using here

/-- What the encoder has chosen for the bytes from a place on. -/
structure Plan (src : Bytes) (anchor : Nat) (sequences : List (Sequence UInt8)) : Prop where
  describe : Describe src anchor sequences
  formed : ∀ sequence ∈ sequences, Formed sequence
  literal : sequences ≠ [] → reach anchor sequences + 5 ≤ src.length
  early : ∀ start ∈ turns anchor sequences, start + 12 < src.length
  window : ∀ sequence ∈ sequences, 1 ≤ sequence.offset ∧ sequence.offset ≤ 65535

theorem Plan.none (src : Bytes) (anchor : Nat) : Plan src anchor [] where
  describe := trivial
  formed := by simp
  literal := by simp
  early := by simp [turns]
  window := by simp

theorem Plan.cons {src : Bytes} {anchor : Nat} {sequence : Sequence UInt8}
    {rest : List (Sequence UInt8)} (here : sequence.Describes src anchor) (formed : Formed sequence)
    (early : anchor + sequence.literals.length + 12 < src.length)
    (ends : anchor + sequence.literals.length + sequence.length + 5 ≤ src.length)
    (plan : Plan src (anchor + sequence.literals.length + sequence.length) rest) :
    Plan src anchor (sequence :: rest) where
  describe := ⟨here, plan.describe⟩
  formed := List.forall_mem_cons.mpr ⟨formed, plan.formed⟩
  literal := by
    intro _
    cases rest with
    | nil => exact ends
    | cons next rest => exact plan.literal (List.cons_ne_nil _ _)
  early := List.forall_mem_cons.mpr ⟨early, plan.early⟩
  window := by
    have near := formed.near
    have back := here.back
    exact List.forall_mem_cons.mpr ⟨⟨back, by omega⟩, plan.window⟩

/-- The loop puts out a block of sequences that describe the bytes from the anchor on. -/
theorem pack_from_plan (src : Bytes) (anchor pos : Nat) (recent : Dict Bytes Nat) (out : Bytes)
    (recalls : Recalls src pos recent) (ordered : anchor ≤ pos) :
    ∃ sequences, packFrom src anchor pos recent out =
        out ++ blockBytes sequences (src.drop (reach anchor sequences)) ∧
      Plan src anchor sequences := by
  fun_induction packFrom src anchor pos recent out with
  | case1 anchor pos recent out goes seq fresh induction =>
      exact induction (recalls.next (Nat.lt_succ_self pos)) (by omega)
  | case2 anchor pos recent out goes seq found known far induction =>
      exact induction (recalls.next (Nat.lt_succ_self pos)) (by omega)
  | case3 anchor pos recent out goes seq found known near length sequence induction =>
      obtain ⟨earlier, there⟩ := recalls seq found known
      have long : 4 ≤ length := matched_ge src found pos 4
      have ends : pos + length + 5 ≤ src.length := matched_inside (by omega)
      have literals : sequence.literals.length = pos - anchor := by
        simp only [sequence, length_fetch]
        omega
      have start : anchor + sequence.literals.length = pos := by omega
      have here : sequence.Describes src anchor := by
        refine ⟨by rw [literals], ?_, ?_, ?_, ?_⟩
        · change 0 < pos - found
          omega
        · rw [start]
          exact Nat.sub_le pos found
        · rw [start]
          change pos + length ≤ src.length
          omega
        · rw [start, show pos - sequence.offset = found from Nat.sub_sub_self (Nat.le_of_lt earlier)]
          exact matched_agrees src found pos 4 (fetch_agrees there)
      obtain ⟨rest, made, plan⟩ := induction (recalls.next (by omega)) (Nat.le_refl _)
      refine ⟨sequence :: rest, ?_, Plan.cons here ⟨long, ?_⟩ (by omega) ?_ ?_⟩
      · rw [made, blockBytes, blockBytes, List.flatMap_cons, reach, start, List.append_assoc,
          List.append_assoc]
      · change pos - found < 65536
        omega
      · rw [start]
        exact ends
      · rw [start]
        exact plan
  | case4 anchor pos recent out stops => exact ⟨[], rfl, Plan.none src anchor⟩

theorem lz4_pack_plan (src : Bytes) :
    ∃ sequences, lz4Pack src = blockBytes sequences (src.drop (reach 0 sequences)) ∧
      Plan src 0 sequences := by
  have recalls : Recalls src 0 ∅ := by
    intro seq found got
    cases got
  exact pack_from_plan src 0 0 ∅ [] recalls (Nat.le_refl 0)

theorem lz4_pack_read (src : Bytes) :
    ∃ sequences last, parse (lz4Pack src) = some (sequences, last) ∧
      Obeys src.length sequences last ∧ lz4 (lz4Pack src) src.length = .ok src := by
  obtain ⟨sequences, made, plan⟩ := lz4_pack_plan src
  have parsed : parse (lz4Pack src) = some (sequences, src.drop (reach 0 sequences)) := by
    rw [parse, made]
    exact parse_block plan.formed _ (block_long _ _)
  refine ⟨sequences, _, parsed, ⟨?_, plan.early, plan.window⟩, ?_⟩
  · intro some
    have room := plan.literal some
    rw [List.length_drop]
    omega
  · have points : Points ([] : Bytes).length sequences := plan.describe.points
    have out := lz4_from_expand parsed points
    rw [expand_all plan.describe] at out
    rw [lz4, out]
    exact if_neg (fun different => different rfl)

theorem extended_length (value : Nat) : (extended value).length = value / 255 + 1 := by
  induction value using Nat.strongRecOn with
  | ind value induction =>
      rw [extended]
      split
      case isTrue more =>
          rw [List.length_cons, induction (value - 255) (by omega)]
          omega
      case isFalse last =>
          rw [List.length_singleton]
          omega

theorem continuation_length (length : Nat) : (continuation length).length ≤ length / 255 + 1 := by
  rw [continuation]
  split
  case isTrue long =>
      rw [extend, extended_length]
      omega
  case isFalse short => exact Nat.zero_le _

theorem sequence_bytes_length {sequence : Sequence UInt8} (formed : Formed sequence) :
    (sequenceBytes sequence).length ≤
      sequence.literals.length + sequence.length + sequence.literals.length / 255 := by
  have long := formed.long
  have literals : (continuation sequence.literals.length).length ≤
      sequence.literals.length / 255 + 1 := continuation_length _
  have more : (continuation (sequence.length - 4)).length + 4 ≤ sequence.length := by
    rw [continuation]
    split
    case isTrue longer =>
        rw [extend, extended_length]
        omega
    case isFalse short => exact formed.long
  rw [sequenceBytes, List.length_cons, List.length_append, List.length_append, List.length_append,
    little_length]
  omega

theorem reach_ge (start : Nat) (sequences : List (Sequence UInt8)) :
    start ≤ reach start sequences := by
  induction sequences generalizing start with
  | nil => exact Nat.le_refl start
  | cons sequence rest induction =>
      have further := induction (start + sequence.literals.length + sequence.length)
      rw [reach]
      omega

theorem sequences_length {sequences : List (Sequence UInt8)}
    (formed : ∀ sequence ∈ sequences, Formed sequence) (start : Nat) :
    start + (sequences.flatMap sequenceBytes).length ≤
      reach start sequences + (reach start sequences - start) / 255 := by
  induction sequences generalizing start with
  | nil => exact Nat.le_add_right _ _
  | cons sequence rest induction =>
      have here := sequence_bytes_length (formed sequence List.mem_cons_self)
      have further := induction (fun other member => formed other (List.mem_cons_of_mem _ member))
        (start + sequence.literals.length + sequence.length)
      have ahead := reach_ge (start + sequence.literals.length + sequence.length) rest
      rw [List.flatMap_cons, List.length_append, reach]
      omega

theorem lz4_pack_length (src : Bytes) :
    (lz4Pack src).length ≤ src.length + src.length / 255 + 2 := by
  obtain ⟨sequences, made, plan⟩ := lz4_pack_plan src
  have inside := reach_le plan.describe (Nat.zero_le _)
  have packed := sequences_length plan.formed 0
  have last := continuation_length (src.drop (reach 0 sequences)).length
  rw [made, blockBytes, lastBytes, List.length_append, List.length_cons, List.length_append]
  rw [List.length_drop] at last ⊢
  omega

def Unlike (src : Bytes) : Prop :=
  ∀ earlier later, earlier < later → later - earlier ≤ 0xFFFF → later + 12 < src.length →
    fetch src earlier 4 ≠ fetch src later 4

theorem pack_from_unlike {src : Bytes} (unlike : Unlike src) (anchor pos : Nat)
    (recent : Dict Bytes Nat) (out : Bytes) (recalls : Recalls src pos recent) :
    packFrom src anchor pos recent out = out ++ lastBytes (src.drop anchor) := by
  fun_induction packFrom src anchor pos recent out with
  | case1 anchor pos recent out goes seq fresh induction =>
      exact induction (recalls.next (Nat.lt_succ_self pos))
  | case2 anchor pos recent out goes seq found known far induction =>
      exact induction (recalls.next (Nat.lt_succ_self pos))
  | case3 anchor pos recent out goes seq found known near length sequence induction =>
      obtain ⟨earlier, there⟩ := recalls seq found known
      exact absurd there (unlike found pos earlier (by omega) goes)
  | case4 anchor pos recent out stops => rfl

theorem lz4_pack_unlike {src : Bytes} (unlike : Unlike src) (long : 15 ≤ src.length) :
    (lz4Pack src).length = src.length + (src.length - 15) / 255 + 2 := by
  have recalls : Recalls src 0 ∅ := by
    intro seq found got
    cases got
  rw [lz4Pack, pack_from_unlike unlike 0 0 ∅ [] recalls, List.drop_zero, List.nil_append, lastBytes,
    continuation, if_pos long, extend, List.length_cons, List.length_append, extended_length]
  omega

end Lz4

end XRootDClient.Root

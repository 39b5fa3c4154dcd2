import XRootDClient.Lib.Rounds

/-!
Feistel networks over any halves that an operation masks, and a block cipher fed back:
the network is undone by itself with its keys turned round, whatever the round function
does, and feedback is undone by the same key stream, a partial last block included.
-/

set_option autoImplicit false

namespace XRootDClient.Lib.Feistel

open BigEndian Rounds

section Networks

variable {Half : Type*} (mix : Half → Half → Half) (round : Half → Half) (key : Nat → Half)

/-- One turn: a half is whitened, masks the other, and they change places. -/
def turn (halves : Half × Half) (place : Nat) : Half × Half :=
  (mix halves.2 (round (mix halves.1 (key place))), mix halves.1 (key place))

def ahead (count : Nat) (halves : Half × Half) : Half × Half :=
  (List.range count).foldl (turn mix round key) halves

def downTo (count : Nat) : List Nat := (List.range count).reverse.map (· + 2)

/-- What the network leaves, with the halves changed back and whitened. -/
def whitened (count : Nat) (halves : Half × Half) : Half × Half :=
  (mix halves.2 (key (count + 1)), mix halves.1 (key count))

variable {mix round key}

theorem undone (cancels : ∀ left right, mix (mix left right) right = left)
    (commutes : ∀ left first second, mix (mix left first) second = mix (mix left second) first)
    (count : Nat) (halves : Half × Half) :
    (downTo count).foldl (turn mix round key)
      (whitened mix key count (ahead mix round key count halves)) = whitened mix key 0 halves := by
  induction count with
  | zero => rfl
  | succ count induction =>
      have places : downTo (count + 1) = (count + 2) :: downTo count := by
        rw [downTo, List.range_succ, List.reverse_append, List.map_append]
        rfl
      have last : ahead mix round key (count + 1) halves =
          turn mix round key (ahead mix round key count halves) count := by
        rw [ahead, List.range_succ, List.foldl_append]
        rfl
      generalize before : ahead mix round key count halves = reached at induction last
      have first : turn mix round key
          (whitened mix key (count + 1) (ahead mix round key (count + 1) halves)) (count + 2) =
          whitened mix key count reached := by
        rw [last]
        simp only [turn, whitened, cancels]
        rw [commutes (mix reached.2 _), cancels]
      rw [places, List.foldl_cons, first, induction]

end Networks

section Feedback

variable (stream : Bytes → Bytes) (size : Nat)

/-- A cipher fed back, over some blocks: every piece is masked by what the register is
encrypted to, and the ciphertext goes into the register. -/
def feedback (decrypt : Bool) : Nat → Bytes → Bytes → Bytes
  | 0, _, _ => []
  | blocks + 1, register, data =>
      let pad := stream register
      let piece := data.take size
      let out := mask piece pad
      let taken := if decrypt then piece else out
      out ++ feedback decrypt blocks (taken ++ pad.drop piece.length) (data.drop size)

variable {stream size}

theorem mask_back {piece pad : Bytes} (short : piece.length ≤ pad.length) :
    mask (mask piece pad) pad = piece := by
  induction piece generalizing pad with
  | nil => rfl
  | cons byte rest induction =>
      cases pad with
      | nil => exact absurd short (Nat.not_succ_le_zero _)
      | cons other others =>
          have inner : mask (mask rest others) others = rest :=
            induction (Nat.le_of_succ_le_succ short)
          have head : byte ^^^ other ^^^ other = byte := by
            rw [UInt8.xor_assoc, UInt8.xor_self, UInt8.xor_zero]
          rw [mask, mask, List.zipWith_cons_cons, List.zipWith_cons_cons, head]
          exact congrArg _ inner

theorem feedback_nil (decrypt : Bool) (blocks : Nat) (register : Bytes) :
    feedback stream size decrypt blocks register [] = [] := by
  induction blocks generalizing register with
  | zero => rfl
  | succ blocks induction =>
      rw [feedback, List.take_nil, List.drop_nil]
      exact induction _

theorem feedback_length (wide : ∀ register, (stream register).length = size) (decrypt : Bool)
    {blocks : Nat} (register : Bytes) {data : Bytes} (enough : data.length ≤ size * blocks) :
    (feedback stream size decrypt blocks register data).length = data.length := by
  induction blocks generalizing register data with
  | zero => exact (Nat.le_zero.mp (enough.trans_eq (Nat.mul_zero size))).symm
  | succ blocks induction =>
      have after : (data.drop size).length ≤ size * blocks := by
        rw [List.length_drop]
        have grown : size * (blocks + 1) = size * blocks + size := Nat.mul_succ _ _
        omega
      have masked : (mask (data.take size) (stream register)).length = min size data.length := by
        rw [mask, List.length_zipWith, List.length_take, wide]
        exact Nat.min_eq_left (Nat.min_le_left _ _)
      rw [feedback, List.length_append, induction _ after, masked, List.length_drop]
      omega

theorem feedback_undone (wide : ∀ register, (stream register).length = size) {blocks : Nat}
    (register : Bytes) {data : Bytes} (enough : data.length ≤ size * blocks) :
    feedback stream size true blocks register (feedback stream size false blocks register data) =
      data := by
  induction blocks generalizing register data with
  | zero => exact (List.eq_nil_of_length_eq_zero (by omega)).symm
  | succ blocks induction =>
      have room : (data.take size).length ≤ (stream register).length := by
        rw [wide, List.length_take]
        exact Nat.min_le_left _ _
      have masked : (mask (data.take size) (stream register)).length = (data.take size).length := by
        rw [mask, List.length_zipWith]
        exact Nat.min_eq_left room
      generalize cut : mask (data.take size) (stream register) = out at masked
      have known : feedback stream size false (blocks + 1) register data =
          out ++ feedback stream size false blocks
            (out ++ (stream register).drop (data.take size).length) (data.drop size) := by
        rw [feedback, ← cut]
        rfl
      generalize later : feedback stream size false blocks
        (out ++ (stream register).drop (data.take size).length) (data.drop size) = rest at known
      -- a piece cut short is the last, and nothing is behind it
      have parted : (out ++ rest).take size = out ∧ (out ++ rest).drop size = rest := by
        by_cases whole : size ≤ data.length
        · have full : out.length = size := by
            rw [masked, List.length_take]
            exact Nat.min_eq_left whole
          exact ⟨List.take_left' full, List.drop_left' full⟩
        · have last : data.drop size = [] := List.drop_eq_nil_of_le (by omega)
          have short : out.length ≤ size := by
            rw [masked, List.length_take]
            exact Nat.min_le_left _ _
          rw [last, feedback_nil] at later
          rw [← later, List.append_nil]
          exact ⟨List.take_of_length_le short, List.drop_eq_nil_of_le short⟩
      have returned : mask out (stream register) = data.take size := by
        rw [← cut]
        exact mask_back room
      have after : (data.drop size).length ≤ size * blocks := by
        rw [List.length_drop]
        have grown : size * (blocks + 1) = size * blocks + size := Nat.mul_succ _ _
        omega
      rw [known, feedback, parted.1, parted.2, returned, masked, if_pos rfl, ← later,
        induction _ after, List.take_append_drop]

end Feedback

end XRootDClient.Lib.Feistel

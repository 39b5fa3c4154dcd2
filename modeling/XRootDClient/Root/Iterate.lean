import Mathlib
import XRootDClient.Root.Branches

/-!
# Walking a tree in steps

`iterate` goes from the first bound to the last, a step at a time, and every batch is
`arrays` over its own bounds. Bounds that are not negative are walked as they are
read. A negative one is counted from the end by every batch anew, while the walk
itself compares it as it stands: a walk that crosses zero, or that is held up against
a negative end, misses entries or takes the wrong ones.
-/

set_option autoImplicit false

namespace XRootDClient.Root.Branches

open Lib Lib.BigEndian Lib.Extent

def walk (step : Nat) (stop at_ : Int) : List (Int × Int) :=
  if at_ < stop ∧ 0 < step then (at_, min (at_ + step) stop) :: walk step stop (at_ + step)
  else []
termination_by (stop - at_).toNat

section Steps

variable {Value : Type} {content : List Value} {step : Nat}

def batch (content : List Value) (bounds : Int × Int) : List Value :=
  within content bounds.1 (some bounds.2)

theorem within_subset {start : Int} {stop : Option Int} {value : Value}
    (member : value ∈ within content start stop) : value ∈ content := fetch_subset member

theorem batch_subset {bounds : Int × Int} {value : Value} (member : value ∈ batch content bounds) :
    value ∈ content := within_subset member

theorem within_length (content : List Value) (start : Int) (stop : Option Int) :
    (within content start stop).length =
      ((bounds content.length start stop).2 - (bounds content.length start stop).1).toNat := by
  have low : 0 ≤ (bounds content.length start stop).1 := Int.le_max_right _ _
  have high : (bounds content.length start stop).2 ≤ content.length := Int.min_le_right _ _
  rw [within, length_fetch]
  omega

theorem within_empty {start : Int} {stop : Option Int}
    (empty : (bounds content.length start stop).2 ≤ (bounds content.length start stop).1) :
    within content start stop = [] := by
  apply List.length_eq_zero_iff.mp
  rw [within_length]
  omega

theorem walk_done {stop at_ : Int} (done : stop ≤ at_) : walk step stop at_ = [] := by
  rw [walk, if_neg (by omega)]

theorem walk_more {stop at_ : Int} (more : at_ < stop) (positive : 0 < step) :
    walk step stop at_ = (at_, min (at_ + step) stop) :: walk step stop (at_ + step) := by
  rw [walk, if_pos ⟨more, positive⟩]

theorem walk_last {stop at_ : Int} (more : at_ < stop) (near : stop - at_ ≤ step) :
    walk step stop at_ = [(at_, stop)] := by
  rw [walk_more more (by omega), walk_done (by omega), Int.min_eq_right (by omega)]

theorem bounds_forward {total : Nat} {start stop : Int} (low : 0 ≤ start) (high : 0 ≤ stop) :
    bounds total start (some stop) = (start, min stop total) := by
  simp only [bounds, Option.getD_some]
  rw [if_neg (by omega), if_neg (by omega), Int.max_eq_left low]

theorem bounds_short {total : Nat} {start stop : Int} (low : 0 ≤ start) (high : stop < 0) :
    bounds total start (some stop) = (start, total + stop) := by
  simp only [bounds, Option.getD_some]
  rw [if_pos high, if_neg (by omega), Int.max_eq_left low, Int.min_eq_left (by omega),
    Int.add_comm stop]

theorem bounds_backward {total : Nat} {start stop : Int} (low : start < 0) (high : stop < 0) :
    bounds total start (some stop) = (max (total + start) 0, total + stop) := by
  simp only [bounds, Option.getD_some]
  rw [if_pos low, if_pos high, Int.min_eq_left (by omega), Int.add_comm stop]

theorem bounds_across {total : Nat} {start stop : Int} (low : start < 0) (high : 0 ≤ stop) :
    bounds total start (some stop) = (max (total + start) 0, min stop total) := by
  simp only [bounds, Option.getD_some]
  rw [if_pos low, if_neg (by omega)]

theorem fetch_ranges {first second third : Int} (low : 0 ≤ first) (mid : first ≤ second)
    (high : second ≤ third) :
    fetch content first.toNat (second - first).toNat ++
        fetch content second.toNat (third - second).toNat =
      fetch content first.toNat (third - first).toNat := by
  have next : second.toNat = first.toNat + (second - first).toNat := by omega
  rw [next, fetch_append]
  congr 1
  omega

theorem batch_forward {start stop : Int} (low : 0 ≤ start) (more : start < stop)
    (high : stop ≤ content.length) :
    batch content (start, stop) = fetch content start.toNat (stop - start).toNat := by
  rw [batch, within, bounds_forward low (by omega), Int.min_eq_left high]

theorem walk_forward {stop at_ : Int} (positive : 0 < step) (low : 0 ≤ at_)
    (high : stop ≤ content.length) :
    (walk step stop at_).flatMap (batch content) = fetch content at_.toNat (stop - at_).toNat ∧
      ∀ bounds ∈ (walk step stop at_).dropLast, (batch content bounds).length = step := by
  fun_induction walk step stop at_ with
  | case2 at_ done =>
      have nothing : (stop - at_).toNat = 0 := by omega
      rw [nothing]
      simp [fetch]
  | case1 at_ more induction =>
      obtain ⟨rest, sizes⟩ := induction (by omega)
      have first : batch content (at_, min (at_ + step) stop) =
          fetch content at_.toNat (min (at_ + step) stop - at_).toNat :=
        batch_forward low (by omega) (by omega)
      refine ⟨?_, ?_⟩
      · rw [List.flatMap_cons, rest, first]
        by_cases last : stop ≤ at_ + step
        · rw [Int.min_eq_right last, show (stop - (at_ + step)).toNat = 0 by omega]
          simp [fetch]
        · rw [Int.min_eq_left (by omega)]
          exact fetch_ranges low (by omega) (by omega)
      · by_cases last : stop ≤ at_ + step
        · rw [walk_done last]
          simp
        · rw [List.dropLast_cons_of_ne_nil (by rw [walk_more (by omega) positive]; simp)]
          refine List.forall_mem_cons.mpr ⟨?_, sizes⟩
          rw [first, length_fetch]
          omega

theorem batch_backward {start stop : Int} (more : start < stop) (high : stop < 0) :
    batch content (start, stop) =
      fetch content (max (content.length + start) 0).toNat
        (content.length + stop - max (content.length + start) 0).toNat := by
  rw [batch, within, bounds_backward (by omega) high]

theorem walk_backward {stop at_ : Int} (positive : 0 < step) (more : at_ < stop) (high : stop < 0) :
    (walk step stop at_).flatMap (batch content) = batch content (at_, stop) ∧
      (0 ≤ content.length + at_ →
        ∀ bounds ∈ (walk step stop at_).dropLast, (batch content bounds).length = step) := by
  fun_induction walk step stop at_ with
  | case2 at_ done => omega
  | case1 at_ goes induction =>
      by_cases last : stop ≤ at_ + step
      · rw [walk_done last, Int.min_eq_right last]
        simp
      · obtain ⟨rest, sizes⟩ := induction (by omega)
        have first : batch content (at_, at_ + step) =
            fetch content (max (content.length + at_) 0).toNat
              (content.length + (at_ + step) - max (content.length + at_) 0).toNat :=
          batch_backward (by omega) (by omega)
        rw [Int.min_eq_left (by omega),
          List.dropLast_cons_of_ne_nil (by rw [walk_more (by omega) positive]; simp)]
        refine ⟨?_, ?_⟩
        · rw [List.flatMap_cons, rest, first, batch_backward (by omega) high, batch_backward more high]
          by_cases inside : 0 ≤ content.length + (at_ + step)
          · rw [Int.max_eq_left inside]
            exact fetch_ranges (by omega) (by omega) (by omega)
          · -- Both begin before the first entry, so the first batch is empty.
            rw [show (content.length + (at_ + step) - max (content.length + at_) 0).toNat = 0 by omega,
              Int.max_eq_right (show (content.length : Int) + at_ ≤ 0 by omega),
              Int.max_eq_right (show (content.length : Int) + (at_ + step) ≤ 0 by omega)]
            simp [fetch]
        · intro begun
          refine List.forall_mem_cons.mpr ⟨?_, sizes (by omega)⟩
          rw [first, length_fetch]
          omega

/-- A walk that starts before zero and does not end before it takes too many entries, unless
it is one step long. -/
theorem walk_across {stop at_ : Int} (low : at_ < 0) (high : 0 ≤ stop) (inside : stop ≤ content.length)
    (begun : 0 ≤ content.length + at_) (far : step < stop - at_) (positive : 0 < step)
    (sizes : ∀ bounds ∈ (walk step stop at_).dropLast, (batch content bounds).length = step) :
    (stop - (content.length + at_)).toNat <
      ((walk step stop at_).flatMap (batch content)).length := by
  fun_induction walk step stop at_ with
  | case2 at_ done => omega
  | case1 at_ goes induction =>
      rw [Int.min_eq_left (by omega),
        List.dropLast_cons_of_ne_nil (by rw [walk_more (by omega) positive]; simp)] at sizes
      obtain ⟨first, others⟩ := List.forall_mem_cons.mp sizes
      -- The first batch is full only if it ends before zero.
      have before : at_ + step < 0 := by
        by_cases crosses : 0 ≤ at_ + step
        · rw [batch, within_length, bounds_across low crosses] at first
          omega
        · omega
      rw [List.flatMap_cons, List.length_append, Int.min_eq_left (by omega), first]
      by_cases last : stop - (at_ + step) ≤ step
      · have single : (batch content (at_ + step, stop)).length =
            (stop - (content.length + (at_ + step))).toNat := by
          rw [batch, within_length, bounds_across before high]
          omega
        rw [walk_last (by omega) last, List.flatMap_singleton, single]
        omega
      · have rest := induction before (by omega) (by omega) others
        omega

def lastStop (total : Nat) (stop : Option Int) : Int := min (stop.getD total) total

/-- When a walk takes what a read at once takes, step by full step: the bounds are not
negative; or nothing is asked for; or the walk is one step long; or it is over negative
bounds that do not begin before the first entry. -/
def Steady (total step : Nat) (start : Int) (stop : Option Int) : Prop :=
  let last := lastStop total stop
  if 0 ≤ start then 0 ≤ last ∨ total + last ≤ start
  else if 0 ≤ last then last - start ≤ step
  else last ≤ start ∨ last - start ≤ step ∨ 0 ≤ total + start

instance (total step : Nat) (start : Int) (stop : Option Int) :
    Decidable (Steady total step start stop) := by
  unfold Steady
  infer_instance

theorem within_stop (content : List Value) (start : Int) (stop : Option Int) :
    within content start stop = within content start (some (stop.getD content.length)) := rfl

theorem walk_steady {start : Int} {stop : Option Int} (positive : 0 < step)
    (steady : Steady content.length step start stop) :
    (walk step (lastStop content.length stop) start).flatMap (batch content) =
        within content start stop ∧
      ∀ bounds ∈ (walk step (lastStop content.length stop) start).dropLast,
        (batch content bounds).length = step := by
  rw [within_stop]
  unfold Steady at steady
  unfold lastStop at steady ⊢
  dsimp only at steady
  generalize stop.getD content.length = asked at *
  split at steady
  case isTrue forward =>
      rcases steady with ahead | nothing
      · -- Both bounds count from the front.
        obtain ⟨all, sizes⟩ := @walk_forward Value content step (min asked content.length) start
          positive forward (Int.min_le_right _ _)
        refine ⟨?_, sizes⟩
        rw [all, within, bounds_forward forward (by omega)]
      · by_cases negative : asked < 0
        · rw [walk_done (by omega)]
          refine ⟨(within_empty ?_).symm, by simp⟩
          rw [bounds_short forward negative]
          dsimp only
          omega
        · obtain ⟨all, sizes⟩ := @walk_forward Value content step (min asked content.length)
            start positive forward (Int.min_le_right _ _)
          refine ⟨?_, sizes⟩
          rw [all, within, bounds_forward forward (by omega)]
  case isFalse backward =>
      split at steady
      case isTrue across =>
          -- One batch, over the bounds that were given.
          rw [walk_last (by omega) steady, List.flatMap_singleton, batch, within, within,
            bounds_across (by omega) across, bounds_across (by omega) (by omega),
            Int.min_eq_left (Int.min_le_right _ _)]
          simp
      case isFalse behind =>
          have same : min asked (content.length : Int) = asked := by omega
          rw [same] at steady ⊢
          by_cases nothing : asked ≤ start
          · rw [walk_done nothing]
            refine ⟨(within_empty ?_).symm, by simp⟩
            rw [bounds_backward (by omega) (by omega)]
            dsimp only
            omega
          · obtain ⟨all, sizes⟩ := @walk_backward Value content step asked start positive
              (by omega) (by omega)
            refine ⟨all, ?_⟩
            rcases steady with ends | near | begun
            · omega
            · rw [walk_last (by omega) near]
              simp
            · exact sizes begun

theorem steady_of_walk {start : Int} {stop : Option Int} (positive : 0 < step)
    (total : ((walk step (lastStop content.length stop) start).flatMap (batch content)).length =
      (within content start stop).length)
    (sizes : ∀ bounds ∈ (walk step (lastStop content.length stop) start).dropLast,
      (batch content bounds).length = step) : Steady content.length step start stop := by
  rw [within_stop] at total
  unfold Steady
  unfold lastStop at total sizes ⊢
  dsimp only
  generalize stop.getD content.length = asked at *
  split
  case isTrue forward =>
      by_cases ahead : 0 ≤ min asked (content.length : Int)
      · exact .inl ahead
      · right
        rw [walk_done (by omega), within_length, bounds_short forward (by omega)] at total
        simp only [List.flatMap_nil, List.length_nil] at total
        omega
  case isFalse backward =>
      -- A walk of two steps or more has a first batch that must be full.
      have opening : ∀ last : Int, step < last - start → start < last →
          (∀ bounds ∈ (walk step last start).dropLast, (batch content bounds).length = step) →
          (batch content (start, start + step)).length = step := by
        intro last far more full
        rw [walk_more more positive, Int.min_eq_left (by omega),
          List.dropLast_cons_of_ne_nil (by rw [walk_more (by omega) positive]; simp)] at full
        exact (List.forall_mem_cons.mp full).1
      split
      case isTrue across =>
          by_contra far
          have first := opening _ (by omega) (by omega) sizes
          have begun : 0 ≤ content.length + start := by
            rw [batch, within_length] at first
            by_cases crosses : 0 ≤ start + step
            · rw [bounds_across (by omega) crosses] at first
              omega
            · rw [bounds_backward (by omega) (by omega)] at first
              omega
          have more := @walk_across Value content step _ start (by omega) across
            (Int.min_le_right _ _) begun (by omega) positive sizes
          rw [total, within_length, bounds_across (by omega) (by omega)] at more
          omega
      case isFalse behind =>
          by_contra fails
          simp only [not_or] at fails
          have first := opening _ (by omega) (by omega) sizes
          rw [batch, within_length, bounds_backward (by omega) (by omega)] at first
          omega

end Steps

section Trees

variable {Item Object Memory : Type}

def Out.append : Out Item Object → Out Item Object → Out Item Object
  | .flat first, .flat second => .flat (first ++ second)
  | .jagged content offsets, .jagged more others =>
      .jagged (content ++ more) (offsets ++ others.tail.map (· + offsets.getLastD 0))
  | .list first, .list second => .list (first ++ second)
  | first, _ => first

def Column.joined (column : Column Item Object Memory) (outs : List (Out Item Object)) :
    Out Item Object :=
  outs.foldl Out.append (column.out [])

def Column.count (column : Column Item Object Memory) : Out Item Object → Nat
  | .flat content =>
      match column with
      | .flat length _ _ => content.length / length
      | _ => 0
  | .jagged _ offsets => offsets.length - 1
  | .list objects => objects.length

theorem row_starts_append (total : Int) (first second : List Int) :
    rowStarts total (first ++ second) =
      rowStarts total first ++ (rowStarts 0 second).tail.map (· + (rowStarts total first).getLastD 0) := by
  have shifted : ∀ (counts : List Int) (base more : Int),
      (rowStarts base counts).map (· + more) = rowStarts (base + more) counts := by
    intro counts
    induction counts with
    | nil => intros; rfl
    | cons count rest induction =>
        intro base more
        rw [rowStarts, rowStarts, List.map_cons, induction, Int.add_right_comm]
  induction first generalizing total with
  | nil =>
      cases second with
      | nil => rfl
      | cons count rest =>
          rw [List.nil_append, rowStarts, rowStarts, rowStarts, List.tail_cons, shifted]
          simp [Int.add_comm]
  | cons count rest induction =>
      have some : rowStarts (total + count) rest ≠ [] := by
        cases rest
        all_goals simp [rowStarts]
      rw [List.cons_append, rowStarts, rowStarts, induction, List.cons_append]
      congr 3
      obtain ⟨last, lastIs⟩ := Option.ne_none_iff_exists'.mp
        (fun none => some (List.getLast?_eq_none_iff.mp none))
      rw [List.getLastD_eq_getLast?, List.getLastD_eq_getLast?, List.getLast?_cons, lastIs]
      rfl

theorem out_append (column : Column Item Object Memory) (first second : List (Piece Object)) :
    column.out (first ++ second) = (column.out first).append (column.out second) := by
  cases column with
  | flat length itemsize item => simp [Column.out, Out.append]
  | rows itemsize header counted item =>
      simp only [Column.out, Out.append, List.flatMap_append, List.map_append, row_starts_append]
  | values read => simp [Column.out, Out.append]

theorem joined_out (column : Column Item Object Memory) (batches : List (List (Piece Object))) :
    column.joined (batches.map column.out) = column.out batches.flatten := by
  have from_ : ∀ front : List (Piece Object),
      (batches.map column.out).foldl Out.append (column.out front) =
        column.out (front ++ batches.flatten) := by
    induction batches with
    | nil => simp
    | cons first rest induction =>
        intro front
        rw [List.map_cons, List.foldl_cons, ← out_append, induction, List.flatten_cons,
          List.append_assoc]
  exact from_ []

theorem items_length (itemsize : Nat) (item : Bytes → Item) (count : Nat) (raw : Bytes) :
    (items itemsize item count raw).length = count := by
  induction count generalizing raw with
  | zero => rfl
  | succ count induction => rw [items, List.length_cons, induction]

theorem row_starts_length (total : Int) (counts : List Int) :
    (rowStarts total counts).length = counts.length + 1 := by
  induction counts generalizing total with
  | nil => rfl
  | cons count rest induction => rw [rowStarts, List.length_cons, induction, List.length_cons]

theorem out_count {column : Column Item Object Memory} (sized : column.Sized) {offset : Int}
    {pieces : List (Piece Object)}
    (read : ∀ piece ∈ pieces, ∃ basket entry, Reads column offset basket entry piece) :
    column.count (column.out pieces) = pieces.length := by
  cases column with
  | flat length itemsize item =>
      have values : (pieces.flatMap (decoded itemsize item)).length = pieces.length * length := by
        induction pieces with
        | nil => simp
        | cons piece rest induction =>
            obtain ⟨⟨basket, entry, here⟩, others⟩ := List.forall_mem_cons.mp read
            have wide : piece.raw.length = length * itemsize := by
              cases piece with
              | bytes raw => exact here.2
              | row count raw => exact here.elim
              | object value => exact here.elim
            rw [List.flatMap_cons, List.length_append, induction others, decoded, items_length, wide,
              Nat.mul_div_cancel _ sized.2, List.length_cons, Nat.succ_mul, Nat.add_comm]
      simp only [Column.out, Column.count, values]
      exact Nat.mul_div_cancel _ sized.1
  | rows itemsize header counted item =>
      simp only [Column.out, Column.count, row_starts_length, List.length_map]
      omega
  | values reader =>
      simp only [Column.out, Column.count]
      induction pieces with
      | nil => rfl
      | cons piece rest induction =>
          obtain ⟨⟨basket, entry, here⟩, others⟩ := List.forall_mem_cons.mp read
          cases piece with
          | bytes raw => exact here.elim
          | row count raw => exact here.elim
          | object value =>
              have next : (Piece.object value :: rest).filterMap Piece.object? =
                  value :: rest.filterMap Piece.object? := rfl
              rw [next, List.length_cons, induction others, List.length_cons]

structure Tree (Item Object Memory : Type) where
  entries : Nat
  branches : List (Text × Branch Item Object Memory)

abbrev Caches := Text → Cache

abbrev Batch (Item Object : Type) := List (Text × Out Item Object)

/-- `TTree.__getitem__`. -/
def Tree.branch (tree : Tree Item Object Memory) (name : Text) :
    Except ReadError (Branch Item Object Memory) :=
  match tree.branches.lookup name with
  | none => .error (.keyError name)
  | some branch => .ok branch

def Tree.arraysOf [Inhabited Memory] (tree : Tree Item Object Memory) (start : Int)
    (stop : Option Int) : Caches → List Text → Except ReadError (Batch Item Object × Caches)
  | caches, [] => .ok ([], caches)
  | caches, name :: rest => do
      let branch ← tree.branch name
      let (out, later) ← branch.array (caches name) start stop
      let (others, caches) ← tree.arraysOf start stop (Function.update caches name later) rest
      return ((name, out) :: others, caches)

def Tree.wanted (tree : Tree Item Object Memory) (names : Option (List Text)) : List Text :=
  names.getD (tree.branches.map Prod.fst)

def Tree.arrays [Inhabited Memory] (tree : Tree Item Object Memory) (caches : Caches)
    (names : Option (List Text)) (start : Int) (stop : Option Int) :
    Except ReadError (Batch Item Object × Caches) :=
  tree.arraysOf start stop caches (tree.wanted names)

def Tree.iterateFrom [Inhabited Memory] (tree : Tree Item Object Memory)
    (names : Option (List Text)) (step : Nat) (stop at_ : Int) (caches : Caches) :
    Except ReadError (List (Batch Item Object) × Caches) :=
  if at_ < stop ∧ 0 < step then
    match tree.arrays caches names at_ (some (min (at_ + step) stop)) with
    | .error raised => .error raised
    | .ok (batch, caches) =>
        match tree.iterateFrom names step stop (at_ + step) caches with
        | .error raised => .error raised
        | .ok (batches, caches) => .ok (batch :: batches, caches)
  else .ok ([], caches)
termination_by (stop - at_).toNat

def Tree.iterate [Inhabited Memory] (tree : Tree Item Object Memory) (caches : Caches)
    (names : Option (List Text)) (step start : Int) (stop : Option Int) :
    Except ReadError (List (Batch Item Object) × Caches) :=
  if step ≤ 0 then .error (.valueError "step must be at least one entry")
  else tree.iterateFrom names step.toNat (lastStop tree.entries stop) start caches

/-- Every column holds its entries, as many as the tree says. -/
def Tree.Holds (tree : Tree Item Object Memory) (contents : Text → List (List (Piece Object))) : Prop :=
  ∀ name branch, tree.branches.lookup name = some branch →
    branch.Holds (contents name) ∧ branch.entries = tree.entries

def Tree.Right (tree : Tree Item Object Memory) (caches : Caches) : Prop :=
  ∀ name branch, tree.branches.lookup name = some branch → branch.Right (caches name)

def Tree.Known (tree : Tree Item Object Memory) (names : List Text) : Prop :=
  ∀ name ∈ names, ∃ branch, tree.branches.lookup name = some branch

/-- A walk gives, column by column, what a read at once gives, in full steps but the last. -/
def Tree.WalkedAsRead [Inhabited Memory] (tree : Tree Item Object Memory) (caches : Caches)
    (names : Option (List Text)) (step : Nat) (start : Int) (stop : Option Int) : Prop :=
  ∃ batches whole, (∃ later, tree.iterate caches names step start stop = .ok (batches, later)) ∧
    (∃ later, tree.arrays caches names start stop = .ok (whole, later)) ∧
    ∀ name ∈ tree.wanted names, ∀ branch, tree.branches.lookup name = some branch →
      whole.lookup name =
          some (branch.column.joined (batches.filterMap fun batch => batch.lookup name)) ∧
        ∀ batch ∈ batches.dropLast, (batch.lookup name).map branch.column.count = some step

/-- The entries of a column between two bounds, as it gives them back. -/
def Tree.outOf (tree : Tree Item Object Memory) (contents : Text → List (List (Piece Object)))
    (bounds : Int × Option Int) (name : Text) : Out Item Object :=
  match tree.branches.lookup name with
  | some branch => branch.column.out (within (contents name).flatten bounds.1 bounds.2)
  | none => .list []

def Tree.batchOf (tree : Tree Item Object Memory) (contents : Text → List (List (Piece Object)))
    (names : List Text) (bounds : Int × Option Int) : Batch Item Object :=
  names.map fun name => (name, tree.outOf contents bounds name)

theorem lookup_map {Value : Type} {names : List Text} {name : Text} (member : name ∈ names)
    (turn : Text → Value) : (names.map fun name => (name, turn name)).lookup name = some (turn name) := by
  induction names with
  | nil => cases member
  | cons first rest induction =>
      rw [List.map_cons, List.lookup_cons]
      by_cases same : name = first
      · rw [same, beq_self_eq_true]
      · rw [beq_false_of_ne same]
        exact induction (List.mem_of_ne_of_mem same member)

section Sound

variable [Inhabited Memory] {tree : Tree Item Object Memory}
  {contents : Text → List (List (Piece Object))}

theorem arrays_of_out (holds : tree.Holds contents) {names : List Text} (known : tree.Known names)
    {caches : Caches} (right : tree.Right caches) (start : Int) (stop : Option Int) :
    ∃ later, tree.arraysOf start stop caches names =
        .ok (tree.batchOf contents names (start, stop), later) ∧ tree.Right later := by
  induction names generalizing caches with
  | nil => exact ⟨caches, rfl, right⟩
  | cons name rest induction =>
      obtain ⟨⟨branch, found⟩, others⟩ := List.forall_mem_cons.mp known
      obtain ⟨cached, given, still⟩ :=
        Branch.array_out (holds name branch found).1 (right name branch found) start stop
      have kept : tree.Right (Function.update caches name cached) := by
        intro other branch' found'
        by_cases same : other = name
        · rw [same] at found' ⊢
          rw [found] at found'
          cases found'
          rw [Function.update_self]
          exact still
        · rw [Function.update_of_ne same]
          exact right other branch' found'
      obtain ⟨later, further, last⟩ := induction others kept
      refine ⟨later, ?_, last⟩
      rw [Tree.arraysOf, Tree.branch, found]
      simp only [bind, Except.bind, given, further, Tree.batchOf, List.map_cons, Tree.outOf, found]
      rfl

theorem iterate_from_out (holds : tree.Holds contents) {names : Option (List Text)}
    (known : tree.Known (tree.wanted names)) (step : Nat) (stop at_ : Int) {caches : Caches}
    (right : tree.Right caches) :
    ∃ later, tree.iterateFrom names step stop at_ caches =
      .ok ((walk step stop at_).map fun bounds =>
        tree.batchOf contents (tree.wanted names) (bounds.1, some bounds.2), later) := by
  fun_induction walk step stop at_ generalizing caches with
  | case1 at_ more induction =>
      obtain ⟨cached, given, still⟩ :=
        arrays_of_out holds known right at_ (some (min (at_ + step) stop))
      obtain ⟨later, further⟩ := induction still
      refine ⟨later, ?_⟩
      rw [Tree.iterateFrom, if_pos more, Tree.arrays, given]
      simp only [further, List.map_cons]
  | case2 at_ done =>
      refine ⟨caches, ?_⟩
      rw [Tree.iterateFrom, if_neg done]
      rfl

omit [Inhabited Memory] in
theorem batch_lookup {names : List Text} {name : Text} (member : name ∈ names)
    {branch : Branch Item Object Memory} (found : tree.branches.lookup name = some branch)
    (bounds : Int × Option Int) :
    (tree.batchOf contents names bounds).lookup name =
      some (branch.column.out (within (contents name).flatten bounds.1 bounds.2)) := by
  rw [Tree.batchOf, lookup_map member, Tree.outOf, found]

omit [Inhabited Memory] in
theorem column_of_batches {names : List Text} {name : Text} (member : name ∈ names)
    {branch : Branch Item Object Memory} (found : tree.branches.lookup name = some branch)
    (bounds : List (Int × Int)) :
    (bounds.map fun pair => tree.batchOf contents names (pair.1, some pair.2)).filterMap
        (fun batch => batch.lookup name) =
      (bounds.map (batch (contents name).flatten)).map branch.column.out := by
  induction bounds with
  | nil => rfl
  | cons pair rest induction =>
      rw [List.map_cons, List.filterMap_cons, batch_lookup member found, List.map_cons, List.map_cons,
        induction]
      rfl

theorem walked_as_read_columns (holds : tree.Holds contents) {caches : Caches}
    (right : tree.Right caches) {names : Option (List Text)} (known : tree.Known (tree.wanted names))
    {step : Nat} (positive : 0 < step) (start : Int) (stop : Option Int) :
    tree.WalkedAsRead caches names step start stop ↔
      ∀ name ∈ tree.wanted names, ∀ branch, tree.branches.lookup name = some branch →
        branch.column.out (within (contents name).flatten start stop) = branch.column.out
            ((walk step (lastStop tree.entries stop) start).flatMap (batch (contents name).flatten)) ∧
          ∀ bounds ∈ (walk step (lastStop tree.entries stop) start).dropLast,
            branch.column.count (branch.column.out (batch (contents name).flatten bounds)) = step := by
  obtain ⟨_, reads, _⟩ := arrays_of_out holds known right start stop
  obtain ⟨_, walks⟩ := iterate_from_out holds known step (lastStop tree.entries stop) start right
  have iterates : tree.iterate caches names step start stop =
      tree.iterateFrom names step (lastStop tree.entries stop) start caches := by
    rw [Tree.iterate, if_neg (by omega), Int.toNat_natCast]
  constructor
  · rintro ⟨batches, whole, ⟨_, walked⟩, ⟨_, read⟩, columns⟩ name member branch found
    rw [iterates, walks] at walked
    rw [Tree.arrays, reads] at read
    cases walked
    cases read
    obtain ⟨same, sizes⟩ := columns name member branch found
    rw [column_of_batches member found, joined_out, batch_lookup member found,
      ← List.flatMap_def] at same
    refine ⟨Option.some.inj same, ?_⟩
    intro bounds inside
    have size := sizes (tree.batchOf contents (tree.wanted names) (bounds.1, some bounds.2)) (by
      rw [← List.map_dropLast]
      exact List.mem_map_of_mem inside)
    rw [batch_lookup member found] at size
    exact Option.some.inj size
  · intro columns
    refine ⟨_, _, ⟨_, iterates.trans walks⟩, ⟨_, reads⟩, ?_⟩
    intro name member branch found
    obtain ⟨same, sizes⟩ := columns name member branch found
    rw [column_of_batches member found, joined_out, batch_lookup member found, ← List.flatMap_def]
    refine ⟨congrArg some same, ?_⟩
    intro given inside
    rw [← List.map_dropLast] at inside
    obtain ⟨bounds, listed, rfl⟩ := List.mem_map.mp inside
    rw [batch_lookup member found]
    exact congrArg some (sizes bounds listed)

end Sound

/-- Walking a tree is reading it at once exactly when the bounds allow it. -/
theorem walked_as_read_iff [Inhabited Memory] (tree : Tree Item Object Memory)
    (contents : Text → List (List (Piece Object))) (holds : tree.Holds contents) (caches : Caches)
    (right : tree.Right caches) (names : Option (List Text)) (known : tree.Known (tree.wanted names))
    (step : Nat) (positive : 0 < step) (start : Int) (stop : Option Int) :
    tree.WalkedAsRead caches names step start stop ↔
      tree.wanted names = [] ∨ Steady tree.entries step start stop := by
  rw [walked_as_read_columns holds right known positive]
  have counts : ∀ name branch, tree.branches.lookup name = some branch →
      ∀ pieces : List (Piece Object), (∀ piece ∈ pieces, piece ∈ (contents name).flatten) →
        branch.column.count (branch.column.out pieces) = pieces.length := by
    intro name branch found pieces inside
    have held := (holds name branch found).1
    exact out_count held.sized fun piece member => cut_pieces held (inside piece member)
  constructor
  · intro columns
    cases asked : tree.wanted names with
    | nil => exact .inl rfl
    | cons name rest =>
        right
        have member : name ∈ tree.wanted names := by
          rw [asked]
          exact List.mem_cons_self
        obtain ⟨branch, found⟩ := known name member
        obtain ⟨same, sizes⟩ := columns name member branch found
        obtain ⟨held, total⟩ := holds name branch found
        have entries : tree.entries = (contents name).flatten.length := total.symm.trans held.entries
        rw [entries] at same sizes ⊢
        apply steady_of_walk positive
        · have counted := congrArg branch.column.count same
          rw [counts name branch found _ (fun piece inside => within_subset inside),
            counts name branch found] at counted
          · exact counted.symm
          · intro piece inside
            obtain ⟨bounds, _, here⟩ := List.mem_flatMap.mp inside
            exact batch_subset here
        · intro bounds inside
          rw [← counts name branch found _ (fun piece here => batch_subset here)]
          exact sizes bounds inside
  · rintro (none | steady) name member branch found
    · rw [none] at member
      cases member
    · obtain ⟨held, total⟩ := holds name branch found
      have entries : tree.entries = (contents name).flatten.length := total.symm.trans held.entries
      rw [entries] at steady ⊢
      obtain ⟨all, sizes⟩ := walk_steady positive steady
      refine ⟨by rw [all], ?_⟩
      intro bounds inside
      rw [counts name branch found _ (fun piece here => batch_subset here)]
      exact sizes bounds inside

end Trees

/-- One column of bytes, two baskets of it in the branch itself. -/
def threeBytes : Branch UInt8 Unit Unit where
  column := .flat 1 1 fun raw => raw.headD 0
  offset := 0
  entries := 3
  inline_ := [⟨0, 1, 2, 2, [10, 11], []⟩, ⟨0, 1, 1, 1, [12], []⟩]
  seeks := 0
  keyed _ := .error .indexError
  basketEntry := [0, 2, 3]

def threeTree : Tree UInt8 Unit Unit where
  entries := 3
  branches := [(str "n", threeBytes)]

def threePieces : List (List (Piece Unit)) := [[.bytes [10], .bytes [11]], [.bytes [12]]]

theorem three_bytes_hold : threeBytes.Holds threePieces where
  sized := ⟨by decide, by decide⟩
  baskets := rfl
  starts := by
    intro index below
    have cases : index = 0 ∨ index = 1 ∨ index = 2 := by
      have length : threePieces.length = 2 := rfl
      omega
    rcases cases with rfl | rfl | rfl
    all_goals rfl
  entries := rfl
  loads := by
    intro index chunk here
    have cases : index = 0 ∨ index = 1 := by
      have inside := (List.getElem?_eq_some_iff.mp here).1
      have length : threePieces.length = 2 := rfl
      omega
    rcases cases with rfl | rfl
    · cases here
      refine ⟨_, rfl, ?_⟩
      intro entry piece held
      have cases : entry = 0 ∨ entry = 1 := by
        have inside := (List.getElem?_eq_some_iff.mp held).1
        simp only [List.length_cons, List.length_nil] at inside
        omega
      rcases cases with rfl | rfl
      all_goals
        cases held
        exact ⟨rfl, rfl⟩
    · cases here
      refine ⟨_, rfl, ?_⟩
      intro entry piece held
      have only : entry = 0 := by
        have inside := (List.getElem?_eq_some_iff.mp held).1
        simp only [List.length_cons, List.length_nil] at inside
        omega
      rw [only] at held ⊢
      cases held
      exact ⟨rfl, rfl⟩

theorem three_tree_holds : threeTree.Holds fun _ => threePieces := by
  intro name branch found
  simp only [threeTree, List.lookup] at found
  split at found
  case h_1 =>
      cases found
      exact ⟨three_bytes_hold, rfl⟩
  case h_2 => cases found

theorem three_tree_right : threeTree.Right fun _ => none := by
  intro name branch _ index basket held
  cases held

theorem three_tree_known : threeTree.Known (threeTree.wanted none) := by
  intro name member
  rw [List.mem_singleton.mp member]
  exact ⟨threeBytes, rfl⟩

theorem three_tree_walked : threeTree.WalkedAsRead (fun _ => none) none 2 0 none :=
  (walked_as_read_iff threeTree (fun _ => threePieces) three_tree_holds (fun _ => none)
    three_tree_right none three_tree_known 2 (by decide) 0 none).mpr (.inr (by decide))

/-- The last entry is asked for, and the walk gives the last two. -/
theorem last_entry_misread : ¬ threeTree.WalkedAsRead (fun _ => none) none 2 (-1) none := by
  rw [walked_as_read_columns three_tree_holds three_tree_right three_tree_known (by decide)]
  intro columns
  have same := (columns (str "n") List.mem_cons_self threeBytes rfl).1
  have bounds : walk 2 (lastStop threeTree.entries none) (-1) = [(-1, 1), (1, 3)] := by
    rw [walk_more (by decide) (by decide), walk_last (by decide) (by decide)]
    rfl
  rw [bounds] at same
  have values := Out.flat.inj same
  revert values
  decide

end XRootDClient.Root.Branches

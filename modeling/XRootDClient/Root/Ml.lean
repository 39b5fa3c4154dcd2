import XRootDClient.Lib.Shares
import XRootDClient.Root.Iterate

/-!
# From trees to tensors

A column becomes a tensor of its own type, or of a wider signed one. A loader over
several trees reads a step of each in turn, puts what it read into one pool, shuffles
the pool and cuts it into batches; a worker does so with its own share of every span.
What torch does is a parameter: how it takes a buffer over, what it draws, and how it
puts tensors behind each other.
-/

set_option autoImplicit false

namespace XRootDClient.Root.Ml

open Lib Lib.Extent Lib.Shares Branches

inductive LoadError
  | read (raised : ReadError)
  | unsupportedFeatureError (message : String)
  | valueError (message : String)
  | keyError (name : Text)
  | indexError
  | runtimeError
  | torchError
  deriving DecidableEq

inductive Code
  | b | B | h | H | i | I | q | Q | f | d
  deriving DecidableEq

inductive Dtype
  | int8 | uint8 | int16 | int32 | int64 | float32 | float64
  deriving DecidableEq

def Dtype.name : Dtype → String
  | .int8 => "int8"
  | .uint8 => "uint8"
  | .int16 => "int16"
  | .int32 => "int32"
  | .int64 => "int64"
  | .float32 => "float32"
  | .float64 => "float64"

def dtypes : Code → Dtype × Option Code
  | .b => (.int8, none)
  | .B => (.uint8, none)
  | .h => (.int16, none)
  | .H => (.int32, some .i)
  | .i => (.int32, none)
  | .I => (.int64, some .q)
  | .q => (.int64, none)
  | .Q => (.int64, some .q)
  | .f => (.float32, none)
  | .d => (.float64, none)

/-- How many bytes a code takes, and whether it has a sign. The bits of a floating one stand
for it. -/
def Code.layout : Code → Nat × Bool
  | .b => (1, true)
  | .B => (1, false)
  | .h => (2, true)
  | .H => (2, false)
  | .i => (4, true)
  | .I => (4, false)
  | .q => (8, true)
  | .Q => (8, false)
  | .f => (4, false)
  | .d => (8, false)

def Code.holds (code : Code) (value : Int) : Bool :=
  let (size, signed) := code.layout
  if signed then -(2 ^ (8 * size - 1)) ≤ value && value < 2 ^ (8 * size - 1)
  else 0 ≤ value && value < 2 ^ (8 * size)

section Tensors

variable {Object Memory : Type}

def lengths (offsets : List Int) : List Int := List.zipWith (fun start stop => stop - start) offsets offsets.tail

def paddedRow (content : List Int) (width : Nat) (fill start stop : Int) : List Int :=
  resize fill (fetch content start.toNat (min stop (start + width) - start).toNat) width

def padded (content : List Int) (offsets : List Int) (width : Option Nat) (fill : Int) :
    List Int × Nat :=
  let width := width.getD ((lengths offsets).foldl max 0).toNat
  ((List.zipWith (paddedRow content width fill) offsets offsets.tail).flatten, width)

/-- What is raised where a number does not fit the widest type there is. -/
def tooLarge (dtype : Dtype) : LoadError := .unsupportedFeatureError
  (s!"a value in this column is too large for {dtype.name}, which is the widest signed " ++
    "type there is; read it with .array() and scale it yourself")

def widened (code : Code) (values : List Int) : Except LoadError (List Int) :=
  match dtypes code with
  | (_, none) => .ok values
  | (dtype, some wider) =>
      if values.all wider.holds then .ok values
      else .error (tooLarge dtype)

def numbers (code : Code) (values : Out Int Object) (width : Option Nat) (fill : Int) :
    Except LoadError (List Int × Dtype × Option Nat) :=
  match values with
  | .list _ => .error (.unsupportedFeatureError
      ("a column of list is not a tensor; strings and objects have to be turned into " ++
        "numbers first, which only you know how to do"))
  | .jagged content offsets => do
      let (content, width) := padded content offsets width fill
      let content ← widened code content
      return (content, (dtypes code).1, some width)
  | .flat content => do
      let content ← widened code content
      return (content, (dtypes code).1, width)

structure Tensor where
  dtype : Dtype
  width : Option Nat
  rows : List (List Int)
  deriving DecidableEq

structure Torch where
  frombuffer : Dtype → List Int → Except LoadError (List Int)
  /-- The order that `torch.randperm` draws, draw by draw. -/
  randperm : Nat → Nat → List Nat
  cat : List Tensor → Except LoadError Tensor

def rowsOf (width : Nat) (values : List Int) : List (List Int) :=
  (List.range (values.length / width)).map fun index => fetch values (index * width) width

def reshape (dtype : Dtype) (values : List Int) (width : Nat) : Except LoadError Tensor :=
  if values.length / width * width = values.length then .ok ⟨dtype, some width, rowsOf width values⟩
  else .error .torchError

def toTensor (torch : Torch) (code : Code) (values : Out Int Object) (width : Option Nat) :
    Except LoadError Tensor := do
  let (values, dtype, width) ← numbers code values width 0
  let values ← torch.frombuffer dtype values
  match width with
  | none => return ⟨dtype, none, values.map fun value => [value]⟩
  | some width => reshape dtype values width

structure Source (Object Memory : Type) where
  tree : Branches.Tree Int Object Memory
  code : Text → Code

abbrev Tensors := List (Text × Tensor)

def length (branch : Branch Int Object Memory) : Nat :=
  match branch.column with
  | .flat length _ _ => length
  | _ => 1

def isNumeric (branch : Branch Int Object Memory) : Bool :=
  match branch.column with
  | .values _ => false
  | _ => true

def numeric (source : Source Object Memory) : List Text :=
  (source.tree.branches.filter fun named => isNumeric named.2).map Prod.fst

def wanted (source : Source Object Memory) (names : Option (List Text)) : List Text :=
  names.getD (numeric source)

/-- The width of a column, where it has more than one value to an entry. -/
def widthOf (source : Source Object Memory) (name : Text) : Except LoadError (Option Nat) :=
  match source.tree.branch name with
  | .error raised => .error (.read raised)
  | .ok branch => .ok (if length branch > 1 then some (length branch) else none)

def toTensors (torch : Torch) (source : Source Object Memory) :
    Batch Int Object → Except LoadError Tensors
  | [] => .ok []
  | (name, values) :: rest => do
      let width ← widthOf source name
      let tensor ← toTensor torch (source.code name) values width
      let others ← toTensors torch source rest
      return (name, tensor) :: others

end Tensors

section Streams

variable {Object Memory : Type} 

structure World where
  caches : Nat → Caches
  draws : Nat

/-- One walk of `iter_tensors`: which tree it is over, where it is and where it ends. -/
structure Stream where
  tree : Nat
  at_ : Int
  stop : Int
  deriving DecidableEq

/-- What a loader is made over: the trees, what is asked of them, and how it is cut. -/
structure Loader (Object Memory : Type) where
  torch : Torch
  sources : Nat → Source Object Memory
  trees : List Nat
  names : Option (List Text)
  step : Int
  batch : Option Int
  shuffle : Bool
  ranges : List (Int × Int)

def Loader.stream (loader : Loader Object Memory) (tree : Nat) (span : Int × Int) : Stream where
  tree := tree
  at_ := span.1
  stop := min span.2 (loader.sources tree).tree.entries

def Loader.next [Inhabited Memory] (loader : Loader Object Memory) (world : World) (stream : Stream) :
    Except LoadError (Option Tensors × Stream × World) := do
  let source := loader.sources stream.tree
  let names := wanted source loader.names
  -- The widths are looked up before the walk begins.
  let _ ← names.mapM (widthOf source)
  if loader.step ≤ 0 then throw (.read (.valueError "step must be at least one entry"))
  if stream.at_ < stream.stop then
    match source.tree.arrays (world.caches stream.tree) (some names) stream.at_
        (some (min (stream.at_ + loader.step) stream.stop)) with
    | .error raised => .error (.read raised)
    | .ok (batch, caches) =>
        let tensors ← toTensors loader.torch source batch
        return (some tensors, { stream with at_ := stream.at_ + loader.step },
          { world with caches := Function.update world.caches stream.tree caches })
  else return (none, stream, world)

/-- One read from each stream: the pool, and the streams that are left. -/
def Loader.round [Inhabited Memory] (loader : Loader Object Memory) :
    World → List Stream → Except LoadError (List Tensors × List Stream × World)
  | world, [] => .ok ([], [], world)
  | world, stream :: rest => do
      let (chunk, stream, world) ← loader.next world stream
      let (pool, left, world) ← Loader.round loader world rest
      match chunk with
      | none => return (pool, left, world)
      | some chunk => return (chunk :: pool, stream :: left, world)

def chunks (name : Text) (pool : List Tensors) : Except LoadError (List Tensor) :=
  pool.mapM fun chunk =>
    match chunk.lookup name with
    | none => .error (.keyError name)
    | some tensor => .ok tensor

def joined (torch : Torch) : List Tensors → Except LoadError Tensors
  | [] => .error .indexError
  | [columns] => .ok columns
  | first :: rest => first.mapM fun named => do
      let chunks ← chunks named.1 (first :: rest)
      let tensor ← torch.cat chunks
      return (named.1, tensor)

/-- `values[order]`. -/
def Tensor.take (tensor : Tensor) (order : List Nat) : Except LoadError Tensor := do
  let rows ← order.mapM fun place =>
    match tensor.rows[place]? with
    | none => Except.error LoadError.indexError
    | some row => Except.ok row
  return { tensor with rows := rows }

/-- `values[start : start + size]`. -/
def Tensor.part (tensor : Tensor) (start size : Nat) : Tensor :=
  { tensor with rows := fetch tensor.rows start size }

def places (rows : Nat) (size : Int) : Except LoadError (List Nat) :=
  if size = 0 then .error (.valueError "range() arg 3 must not be zero")
  else if size < 0 then .ok []
  else .ok ((List.range (share rows size.toNat)).map (· * size.toNat))

/-- Every column in the order of one draw, where the pool is shuffled. -/
def reordered (torch : Torch) (shuffle : Bool) (draws rows : Nat) (columns : Tensors) :
    Except LoadError Tensors :=
  if shuffle then
    columns.mapM fun named => do
      let tensor ← named.2.take (torch.randperm draws rows)
      return (named.1, tensor)
  else .ok columns

def cut (torch : Torch) (batch : Option Int) (shuffle : Bool) (draws : Nat) (pool : List Tensors) :
    Except LoadError (List Tensors × Nat) := do
  let columns ← joined torch pool
  match columns with
  | [] => .error .runtimeError
  | (_, first) :: _ => do
      let rows := first.rows.length
      let columns ← reordered torch shuffle draws rows columns
      let size := batch.getD rows
      let starts ← places rows size
      return (starts.map fun start => columns.map fun named => (named.1, named.2.part start size.toNat),
        if shuffle then draws + 1 else draws)

def Stream.rest (stream : Stream) : Nat := (stream.stop - stream.at_).toNat + 1

def restOf (streams : List Stream) : Nat := (streams.map Stream.rest).sum

section Rest

variable [Inhabited Memory] {loader : Loader Object Memory} {world later : World}

theorem next_rest {stream after : Stream} {chunk : Tensors}
    (given : loader.next world stream = .ok (some chunk, after, later)) :
    after.rest < stream.rest := by
  rw [Loader.next] at given
  dsimp only at given
  cases looked : (wanted (loader.sources stream.tree) loader.names).mapM
      (widthOf (loader.sources stream.tree)) with
  | error raised =>
      rw [looked] at given
      cases given
  | ok widths =>
      rw [looked] at given
      simp only [bind, Except.bind] at given
      split at given
      case isTrue => cases given
      case isFalse positive =>
          simp only [pure, Except.pure] at given
          split at given
          case isFalse => cases given
          case isTrue more =>
              split at given
              case h_1 => cases given
              case h_2 =>
                  split at given
                  case h_1 => cases given
                  case h_2 =>
                      cases given
                      rw [Stream.rest, Stream.rest]
                      dsimp only
                      omega

theorem round_rest {streams left : List Stream} {pool : List Tensors}
    (given : loader.round world streams = .ok (pool, left, later)) :
    restOf left ≤ restOf streams ∧ (streams ≠ [] → restOf left < restOf streams) := by
  induction streams generalizing world later left pool with
  | nil =>
      cases given
      exact ⟨Nat.le_refl _, fun some => absurd rfl some⟩
  | cons stream rest induction =>
      rw [Loader.round] at given
      simp only [bind, Except.bind] at given
      split at given
      case h_1 => cases given
      case h_2 stepped taken =>
          obtain ⟨chunk, after, between⟩ := stepped
          dsimp only at given
          split at given
          case h_1 => cases given
          case h_2 others further =>
              obtain ⟨more, behind, last⟩ := others
              have shorter := (induction further).1
              have some : 0 < stream.rest := Nat.succ_pos _
              have all : restOf (stream :: rest) = stream.rest + restOf rest := by
                rw [restOf, List.map_cons, List.sum_cons, restOf]
              cases chunk with
              | none =>
                  cases given
                  dsimp only
                  omega
              | some chunk =>
                  cases given
                  have on := next_rest taken
                  have kept : restOf (after :: behind) = after.rest + restOf behind := by
                    rw [restOf, List.map_cons, List.sum_cons, restOf]
                  dsimp only
                  omega

end Rest

/-- The loop of `__iter__`: the batches, and what is remembered at the end. -/
def Loader.run [Inhabited Memory] (loader : Loader Object Memory) (world : World) (left : List Stream) :
    Except LoadError (List Tensors × World) :=
  if left = [] then .ok ([], world)
  else
    match _read : loader.round world left with
    | .error raised => .error raised
    | .ok ([], left, world) => loader.run world left
    | .ok (pool, left, world) =>
        match cut loader.torch loader.batch loader.shuffle world.draws pool with
        | .error raised => .error raised
        | .ok (batches, draws) =>
            match loader.run { world with draws := draws } left with
            | .error raised => .error raised
            | .ok (further, world) => .ok (batches ++ further, world)
termination_by restOf left
decreasing_by
  all_goals exact (round_rest _read).2 (by assumption)

/-- What `get_worker_info` gives: which of how many workers this is. -/
structure Worker where
  id : Nat
  numWorkers : Nat

/-- `_share`. -/
def shareOf (worker : Option Worker) (span : Int × Int) : Int × Int :=
  match worker with
  | none => span
  | some worker =>
      let share := -(-(span.2 - span.1) / worker.numWorkers)
      let first := min (span.1 + worker.id * share) span.2
      (first, min (first + share) span.2)

def rangesOf (sources : Nat → Source Object Memory) (trees : List Nat)
    (spans : Option (List (Int × Int))) : List (Int × Int) :=
  spans.getD (trees.map fun tree => (0, ((sources tree).tree.entries : Int)))

/-- `mixed`: the loader, unless there is nothing to read or a span is missing. -/
def mixed (torch : Torch) (sources : Nat → Source Object Memory) (trees : List Nat)
    (names : Option (List Text)) (step : Int) (batch : Option Int) (shuffle : Bool)
    (spans : Option (List (Int × Int))) : Except LoadError (Loader Object Memory) :=
  if trees = [] then .error (.valueError "mixed() needs a tree to read: it was given none")
  else
    let ranges := rangesOf sources trees spans
    if ranges.length ≠ trees.length then
      .error (.valueError
        (s!"mixed() was given {trees.length} trees and {ranges.length} spans; " ++
          "a span says which entries of one tree to read, so there is one apiece"))
    else .ok ⟨torch, sources, trees, names, step, batch, shuffle, ranges⟩

/-- `MixedDataset.__iter__`, in a worker or outside one, gone through to its end. -/
def Loader.iterate [Inhabited Memory] (loader : Loader Object Memory) (worker : Option Worker)
    (world : World) : Except LoadError (List Tensors × World) :=
  loader.run world ((loader.trees.zip loader.ranges).map fun pair =>
    loader.stream pair.1 (shareOf worker pair.2))

def roundRows (step : Nat) (left : List Int) : Int := (left.map (min (step : Int))).sum

def roundLeft (step : Nat) (left : List Int) : List Int := left.map fun entries => max 0 (entries - step)

theorem round_left_less {step : Nat} (positive : 0 < step) {left : List Int}
    (more : left.any (· != 0)) :
    ((roundLeft step left).map Int.natAbs).sum < (left.map Int.natAbs).sum := by
  have each : ∀ entries : Int, (max 0 (entries - step)).natAbs ≤ entries.natAbs ∧
      (entries ≠ 0 → (max 0 (entries - step)).natAbs < entries.natAbs) := by
    intro entries
    omega
  have below : ∀ left : List Int,
      ((roundLeft step left).map Int.natAbs).sum ≤ (left.map Int.natAbs).sum := by
    intro left
    induction left with
    | nil => exact Nat.le_refl _
    | cons entries rest induction =>
        have here := (each entries).1
        simp only [roundLeft, List.map_cons, List.sum_cons] at induction ⊢
        omega
  induction left with
  | nil => cases more
  | cons entries rest induction =>
      have here := each entries
      have others := below rest
      simp only [List.any_cons, Bool.or_eq_true, bne_iff_ne] at more
      simp only [roundLeft, List.map_cons, List.sum_cons] at induction others ⊢
      rcases more with this | that
      · have less := here.2 this
        omega
      · have less := induction that
        omega

def announced (batch : Option Int) (rows : Int) : Int :=
  match batch with
  | none => 1
  | some size => -(-rows).fdiv size

/-- The loop of `__len__`. A step that is not positive never ends it. -/
def lenLoop (step : Nat) (batch : Option Int) (left : List Int) : Int :=
  if _more : left.any (· != 0) ∧ 0 < step then
    announced batch (roundRows step left) + lenLoop step batch (roundLeft step left)
  else 0
termination_by (left.map Int.natAbs).sum
decreasing_by exact round_left_less _more.2 _more.1

def Loader.len (loader : Loader Object Memory) : Int :=
  lenLoop loader.step.toNat loader.batch (loader.ranges.map fun span => span.2 - span.1)

end Streams

abbrev Row := Text → List Int

/-- How a column arrives: its type, and how many values an entry has. -/
structure Kind where
  dtype : Dtype
  length : Nat

def Kind.width (kind : Kind) : Option Nat := if kind.length > 1 then some kind.length else none

def Kind.tensor (kind : Kind) (rows : List (List Int)) : Tensor := ⟨kind.dtype, kind.width, rows⟩

def columnsOf (columns : List Text) (kind : Text → Kind) (rows : List Row) : Tensors :=
  columns.map fun name => (name, (kind name).tensor (rows.map fun row => row name))

/-- What torch says of itself: a buffer that is not empty is taken as it is, `randperm` gives
every number once, and `cat` puts tensors of one type and width behind each other. -/
structure Torch.Lawful (torch : Torch) : Prop where
  frombuffer : ∀ dtype values, values ≠ [] → torch.frombuffer dtype values = .ok values
  randperm : ∀ draws count, (torch.randperm draws count).Perm (List.range count)
  cat : ∀ (kind : Kind) (chunks : List (List (List Int))), chunks ≠ [] →
    torch.cat (chunks.map kind.tensor) = .ok (kind.tensor chunks.flatten)

section Rows

variable {Object Memory : Type}

def Code.fits (code : Code) (value : Int) : Bool :=
  match (dtypes code).2 with
  | none => true
  | some wider => wider.holds value

def Source.cells (source : Source Object Memory) (contents : Text → List (List (Piece Object)))
    (name : Text) : List (List Int) :=
  match source.tree.branches.lookup name with
  | some branch =>
      match branch.column with
      | .flat _ itemsize item => (contents name).flatten.map (decoded itemsize item)
      | _ => []
  | none => []

def Source.rows (source : Source Object Memory) (contents : Text → List (List (Piece Object))) :
    List Row :=
  (List.range source.tree.entries).map fun entry name => (source.cells contents name).getD entry []

/-- A column is of fixed width, and its numbers fit what they are widened to. -/
def Source.Fixed (source : Source Object Memory) (contents : Text → List (List (Piece Object)))
    (kind : Kind) (name : Text) : Prop :=
  ∃ branch itemsize item, source.tree.branches.lookup name = some branch ∧
    branch.column = .flat kind.length itemsize item ∧ (dtypes (source.code name)).1 = kind.dtype ∧
    ∀ cell ∈ source.cells contents name, ∀ value ∈ cell, (source.code name).fits value = true

structure Source.Feeds (source : Source Object Memory) (contents : Text → List (List (Piece Object)))
    (names : Option (List Text)) (columns : List Text) (kind : Text → Kind) : Prop where
  holds : source.tree.Holds contents
  asked : wanted source names = columns
  fixed : ∀ name ∈ columns, source.Fixed contents (kind name) name

theorem fetch_map {Item Other : Type} (content : List Item) (turn : Item → Other)
    (start count : Nat) : fetch (content.map turn) start count = (fetch content start count).map turn := by
  rw [fetch, fetch, List.map_take, List.map_drop]

theorem rows_of_flatten {width : Nat} (positive : 0 < width) {rows : List (List Int)}
    (sized : ∀ row ∈ rows, row.length = width) : rowsOf width rows.flatten = rows := by
  induction rows with
  | nil => simp [rowsOf]
  | cons row rest induction =>
      obtain ⟨here, others⟩ := List.forall_mem_cons.mp sized
      have count : (row ++ rest.flatten).length / width = rest.flatten.length / width + 1 := by
        rw [List.length_append, here, Nat.add_div_left _ positive]
      rw [List.flatten_cons, rowsOf, count, List.range_succ_eq_map, List.map_cons, List.map_map]
      congr 1
      · rw [Nat.zero_mul, fetch, List.drop_zero, ← here, List.take_left]
      · refine Eq.trans ?_ (induction others)
        rw [rowsOf]
        apply List.map_congr_left
        intro index _
        have behind : (index + 1) * width = row.length + index * width := by
          rw [here, Nat.succ_mul, Nat.add_comm]
        rw [Function.comp_apply, Nat.succ_eq_add_one, behind, fetch, fetch, List.drop_append,
          Nat.add_sub_cancel_left, List.drop_eq_nil_of_le (Nat.le_add_right _ _), List.nil_append]

theorem flatten_sized {width : Nat} {rows : List (List Int)} (sized : ∀ row ∈ rows, row.length = width) :
    rows.flatten.length = rows.length * width := by
  induction rows with
  | nil => simp
  | cons row rest induction =>
      obtain ⟨here, others⟩ := List.forall_mem_cons.mp sized
      rw [List.flatten_cons, List.length_append, here, induction others, List.length_cons, Nat.succ_mul,
        Nat.add_comm]

theorem singles_flatten {rows : List (List Int)} (sized : ∀ row ∈ rows, row.length = 1) :
    rows.flatten.map (fun value => [value]) = rows := by
  induction rows with
  | nil => rfl
  | cons row rest induction =>
      obtain ⟨here, others⟩ := List.forall_mem_cons.mp sized
      obtain ⟨value, single⟩ := List.length_eq_one_iff.mp here
      rw [List.flatten_cons, List.map_append, induction others, single]
      rfl

section Feeding

variable {source : Source Object Memory} {contents : Text → List (List (Piece Object))}
  {names : Option (List Text)} {columns : List Text} {kind : Text → Kind}

theorem widened_fits {code : Code} {values : List Int} (fits : ∀ value ∈ values, code.fits value = true) :
    widened code values = .ok values := by
  rw [widened]
  split
  case h_1 => rfl
  case h_2 dtype wider known =>
      rw [if_pos]
      rw [List.all_eq_true]
      intro value member
      have fit := fits value member
      rw [Code.fits, known] at fit
      exact fit

theorem to_tensor_cells {torch : Torch} (lawful : torch.Lawful) {code : Code} {kind : Kind}
    (typed : (dtypes code).1 = kind.dtype) (positive : 0 < kind.length) {cells : List (List Int)}
    (some : cells ≠ []) (sized : ∀ cell ∈ cells, cell.length = kind.length)
    (fits : ∀ cell ∈ cells, ∀ value ∈ cell, code.fits value = true) :
    toTensor torch code (.flat cells.flatten : Out Int Object) kind.width = .ok (kind.tensor cells) := by
  have fit : widened code cells.flatten = .ok cells.flatten := by
    apply widened_fits
    intro value member
    obtain ⟨cell, listed, inside⟩ := List.mem_flatten.mp member
    exact fits cell listed value inside
  have total := flatten_sized sized
  have filled : cells.flatten ≠ [] := by
    intro none
    rw [none, List.length_nil] at total
    have count := List.length_pos_iff.mpr some
    have product := Nat.mul_pos count positive
    omega
  rw [toTensor, numbers, fit]
  simp only [bind, Except.bind, pure, Except.pure, typed, lawful.frombuffer _ _ filled]
  by_cases wide : kind.length > 1
  · rw [Kind.tensor, Kind.width, if_pos wide]
    dsimp only
    rw [reshape, if_pos (by rw [total, Nat.mul_div_cancel _ positive]), rows_of_flatten positive sized]
  · have one : kind.length = 1 := by omega
    rw [one] at sized
    rw [Kind.tensor, Kind.width, if_neg wide]
    dsimp only
    rw [singles_flatten sized]

theorem cells_length (feeds : source.Feeds contents names columns kind) {name : Text}
    (member : name ∈ columns) : (source.cells contents name).length = source.tree.entries := by
  obtain ⟨branch, itemsize, item, found, flat, _⟩ := feeds.fixed name member
  obtain ⟨held, total⟩ := feeds.holds name branch found
  rw [Source.cells, found]
  dsimp only
  rw [flat]
  dsimp only
  rw [List.length_map, ← held.entries, total]

theorem rows_column (feeds : source.Feeds contents names columns kind) {name : Text}
    (member : name ∈ columns) :
    ((source.rows contents).map fun row => row name) = source.cells contents name := by
  rw [Source.rows, List.map_map]
  apply List.ext_getElem
  · rw [List.length_map, List.length_range, cells_length feeds member]
  · intro entry first second
    rw [List.getElem_map, List.getElem_range, Function.comp_apply]
    exact List.getD_eq_getElem _ _ second

theorem cells_sized (feeds : source.Feeds contents names columns kind) {name : Text}
    (member : name ∈ columns) :
    0 < (kind name).length ∧
      ∀ cell ∈ source.cells contents name, cell.length = (kind name).length := by
  obtain ⟨branch, itemsize, item, found, flat, _⟩ := feeds.fixed name member
  have held := (feeds.holds name branch found).1
  have sized := held.sized
  rw [flat] at sized
  refine ⟨sized.1, ?_⟩
  intro cell inside
  rw [Source.cells, found] at inside
  dsimp only at inside
  rw [flat] at inside
  dsimp only at inside
  obtain ⟨piece, listed, rfl⟩ := List.mem_map.mp inside
  obtain ⟨basket, entry, reads⟩ := cut_pieces held listed
  rw [flat] at reads
  cases piece with
  | bytes raw => rw [decoded, items_length, Piece.raw, reads.2, Nat.mul_div_cancel _ sized.2]
  | row count raw => exact reads.elim
  | object value => exact reads.elim

theorem width_known (feeds : source.Feeds contents names columns kind) {name : Text}
    (member : name ∈ columns) : widthOf source name = .ok (kind name).width := by
  obtain ⟨branch, itemsize, item, found, flat, _⟩ := feeds.fixed name member
  have same : length branch = (kind name).length := by
    rw [length, flat]
  rw [widthOf, Tree.branch, found]
  dsimp only
  rw [same, Kind.width]

theorem out_cells (feeds : source.Feeds contents names columns kind) {name : Text}
    (member : name ∈ columns) {start stop : Int} (low : 0 ≤ start) (more : start < stop)
    (high : stop ≤ source.tree.entries) :
    source.tree.outOf contents (start, some stop) name =
      .flat (fetch (source.cells contents name) start.toNat (stop - start).toNat).flatten := by
  obtain ⟨branch, itemsize, item, found, flat, _⟩ := feeds.fixed name member
  obtain ⟨held, total⟩ := feeds.holds name branch found
  have inside : stop ≤ (contents name).flatten.length := by
    rw [← held.entries, total]
    exact high
  have here := batch_forward low more inside
  rw [batch] at here
  rw [Tree.outOf, found]
  dsimp only
  rw [here, Source.cells, found]
  dsimp only
  rw [flat, Column.out]
  dsimp only
  rw [fetch_map, List.flatMap_def]

theorem to_tensors_rows (feeds : source.Feeds contents names columns kind) {torch : Torch}
    (lawful : torch.Lawful) {start stop : Int} (low : 0 ≤ start) (more : start < stop)
    (high : stop ≤ source.tree.entries) :
    toTensors torch source (source.tree.batchOf contents columns (start, some stop)) =
      .ok (columnsOf columns kind (fetch (source.rows contents) start.toNat (stop - start).toNat)) := by
  have each : ∀ listed : List Text, (∀ name ∈ listed, name ∈ columns) →
      toTensors torch source (source.tree.batchOf contents listed (start, some stop)) =
        .ok (columnsOf listed kind (fetch (source.rows contents) start.toNat (stop - start).toNat)) := by
    intro listed
    induction listed with
    | nil => exact fun _ => rfl
    | cons name rest induction =>
        intro all
        obtain ⟨member, others⟩ := List.forall_mem_cons.mp all
        obtain ⟨branch, itemsize, item, found, flat, typed, fits⟩ := feeds.fixed name member
        obtain ⟨positive, sized⟩ := cells_sized feeds member
        have count := cells_length feeds member
        have some : fetch (source.cells contents name) start.toNat (stop - start).toNat ≠ [] := by
          rw [← List.length_pos_iff, length_fetch, count]
          omega
        have tensor := @to_tensor_cells Object torch lawful (source.code name) (kind name) typed positive
          _ some (fun cell inside => sized cell (fetch_subset inside))
          (fun cell inside => fits cell (fetch_subset inside))
        have here : (fetch (source.rows contents) start.toNat (stop - start).toNat).map
            (fun row => row name) =
            fetch (source.cells contents name) start.toNat (stop - start).toNat := by
          rw [← fetch_map, rows_column feeds member]
        have further := induction others
        rw [Tree.batchOf] at further
        rw [Tree.batchOf, List.map_cons, toTensors, width_known feeds member,
          out_cells feeds member low more high]
        simp only [bind, Except.bind, tensor, further, columnsOf, List.map_cons, here]
        rfl
  exact each columns fun _ member => member

end Feeding

end Rows

section Rounds

variable {Object Memory : Type} [Inhabited Memory] {loader : Loader Object Memory}
  {contents : Nat → Text → List (List (Piece Object))} {columns : List Text} {kind : Text → Kind}

structure Loader.Ready (loader : Loader Object Memory)
    (contents : Nat → Text → List (List (Piece Object))) (columns : List Text)
    (kind : Text → Kind) : Prop where
  lawful : loader.torch.Lawful
  step : 0 < loader.step
  batch : ∀ size ∈ loader.batch, 0 < size
  some : columns ≠ []
  feeds : ∀ tree ∈ loader.trees,
    (loader.sources tree).Feeds (contents tree) loader.names columns kind

/-- What is remembered of the trees is what would be read again. -/
def Loader.Right (loader : Loader Object Memory) (world : World) : Prop :=
  ∀ tree ∈ loader.trees, (loader.sources tree).tree.Right (world.caches tree)

structure Loader.Inside (loader : Loader Object Memory) (stream : Stream) : Prop where
  tree : stream.tree ∈ loader.trees
  low : 0 ≤ stream.at_
  high : stream.stop ≤ (loader.sources stream.tree).tree.entries

def Loader.rest (loader : Loader Object Memory)
    (contents : Nat → Text → List (List (Piece Object))) (stream : Stream) : List Row :=
  fetch ((loader.sources stream.tree).rows (contents stream.tree)) stream.at_.toNat
    (stream.stop - stream.at_).toNat

omit [Inhabited Memory] in
theorem rest_length {stream : Stream} (here : loader.Inside stream) :
    (loader.rest contents stream).length = (stream.stop - stream.at_).toNat := by
  have high := here.high
  have low := here.low
  rw [Loader.rest, length_fetch, Source.rows, List.length_map, List.length_range]
  omega

theorem map_m_ok {Item Value Error : Type} {read : Item → Except Error Value} {value : Item → Value}
    {items : List Item} (reads : ∀ item ∈ items, read item = .ok (value item)) :
    items.mapM read = .ok (items.map value) := by
  induction items with
  | nil => rfl
  | cons item rest induction =>
      obtain ⟨here, others⟩ := List.forall_mem_cons.mp reads
      rw [List.mapM_cons, here, induction others]
      rfl

theorem next_given (ready : loader.Ready contents columns kind) {world : World}
    (right : loader.Right world) {stream : Stream} (inside : loader.Inside stream)
    (more : stream.at_ < stream.stop) :
    ∃ later, loader.next world stream =
        .ok (some (columnsOf columns kind
            ((loader.rest contents stream).take loader.step.toNat)),
          { stream with at_ := stream.at_ + loader.step }, later) ∧
      loader.Right later ∧ later.draws = world.draws := by
  have feeds := ready.feeds stream.tree inside.tree
  have positive := ready.step
  have high := inside.high
  have low := inside.low
  have known : (loader.sources stream.tree).tree.Known columns := by
    intro name member
    obtain ⟨branch, _, _, found, _⟩ := feeds.fixed name member
    exact ⟨branch, found⟩
  obtain ⟨caches, reads, still⟩ := arrays_of_out feeds.holds known (right stream.tree inside.tree)
    stream.at_ (some (min (stream.at_ + loader.step) stream.stop))
  have tensors := to_tensors_rows feeds ready.lawful low
    (show stream.at_ < min (stream.at_ + loader.step) stream.stop by omega) (by omega)
  have taken : fetch ((loader.sources stream.tree).rows (contents stream.tree)) stream.at_.toNat
      (min (stream.at_ + loader.step) stream.stop - stream.at_).toNat =
      (loader.rest contents stream).take loader.step.toNat := by
    rw [Loader.rest, fetch, fetch, List.take_take]
    congr 1
    omega
  rw [taken] at tensors
  refine ⟨{ world with caches := Function.update world.caches stream.tree caches }, ?_, ?_, rfl⟩
  · rw [Loader.next, feeds.asked]
    dsimp only
    rw [map_m_ok (fun name member => width_known feeds member), if_neg (by omega), if_pos more]
    simp only [bind, Except.bind, pure, Except.pure, Tree.arrays, Tree.wanted, Option.getD_some, reads,
      tensors]
  · intro tree member
    by_cases same : tree = stream.tree
    · rw [same]
      dsimp only
      rw [Function.update_self]
      exact still
    · dsimp only
      rw [Function.update_of_ne same]
      exact right tree member

theorem next_done (ready : loader.Ready contents columns kind) {world : World} {stream : Stream}
    (inside : loader.Inside stream) (done : stream.stop ≤ stream.at_) :
    loader.next world stream = .ok (none, stream, world) := by
  have feeds := ready.feeds stream.tree inside.tree
  have positive := ready.step
  rw [Loader.next, feeds.asked]
  dsimp only
  rw [map_m_ok (fun name member => width_known feeds member), if_neg (by omega), if_neg (by omega)]
  rfl

/-- What a round does to the rows that are still to come. -/
structure Loader.Round (loader : Loader Object Memory)
    (contents : Nat → Text → List (List (Piece Object))) (streams left : List Stream)
    (pool : List (List Row)) : Prop where
  inside : ∀ stream ∈ left, loader.Inside stream
  rows : (pool.flatten ++ left.flatMap (loader.rest contents)).Perm
    (streams.flatMap (loader.rest contents))
  some : ∀ chunk ∈ pool, chunk ≠ []
  taken : pool.map List.length = (((streams.map fun stream =>
    (loader.rest contents stream).length).filter (0 < ·)).map (min loader.step.toNat))
  behind : (left.map fun stream => (loader.rest contents stream).length) = ((streams.map fun stream =>
    (loader.rest contents stream).length).filter (0 < ·)).map (· - loader.step.toNat)

theorem round_given (ready : loader.Ready contents columns kind) {world : World}
    (right : loader.Right world) {streams : List Stream}
    (inside : ∀ stream ∈ streams, loader.Inside stream) :
    ∃ pool left later, loader.round world streams =
        .ok (pool.map (columnsOf columns kind), left, later) ∧
      loader.Round contents streams left pool ∧ loader.Right later ∧ later.draws = world.draws := by
  induction streams generalizing world with
  | nil =>
      exact ⟨[], [], world, rfl, ⟨List.forall_mem_nil _, List.Perm.refl _, List.forall_mem_nil _, rfl,
        rfl⟩, right, rfl⟩
  | cons stream rest induction =>
      obtain ⟨here, others⟩ := List.forall_mem_cons.mp inside
      have count := @rest_length Object Memory loader contents stream here
      have positive := ready.step
      by_cases more : stream.at_ < stream.stop
      · obtain ⟨between, given, still, drawn⟩ := next_given ready right here more
        obtain ⟨pool, left, later, further, round, last, same⟩ := induction still others
        have on : loader.Inside { stream with at_ := stream.at_ + loader.step } :=
          ⟨here.tree, by have low := here.low; dsimp only; omega, here.high⟩
        have cutRest : loader.rest contents { stream with at_ := stream.at_ + loader.step } =
            (loader.rest contents stream).drop loader.step.toNat := by
          have low := here.low
          rw [Loader.rest, Loader.rest, fetch, fetch, List.drop_take, List.drop_drop]
          dsimp only
          congr 1
          · omega
          · congr 1
            omega
        refine ⟨(loader.rest contents stream).take loader.step.toNat :: pool,
          { stream with at_ := stream.at_ + loader.step } :: left, later, ?_, ?_, last,
          same.trans drawn⟩
        · rw [Loader.round, given]
          simp only [bind, Except.bind, further]
          rfl
        · refine ⟨List.forall_mem_cons.mpr ⟨on, round.inside⟩, ?_,
            List.forall_mem_cons.mpr ⟨?_, round.some⟩, ?_, ?_⟩
          · rw [List.flatten_cons, List.flatMap_cons, List.flatMap_cons, cutRest]
            have apart : ((loader.rest contents stream).take loader.step.toNat ++ pool.flatten ++
                ((loader.rest contents stream).drop loader.step.toNat ++
                  left.flatMap (loader.rest contents))).Perm
                ((loader.rest contents stream).take loader.step.toNat ++
                  ((loader.rest contents stream).drop loader.step.toNat ++
                    (pool.flatten ++ left.flatMap (loader.rest contents)))) := by
              rw [List.append_assoc]
              exact (List.perm_append_comm_assoc _ _ _).append_left _
            have whole : ∀ behind : List Row, (loader.rest contents stream).take loader.step.toNat ++
                ((loader.rest contents stream).drop loader.step.toNat ++ behind) =
                loader.rest contents stream ++ behind := by
              intro behind
              rw [← List.append_assoc, List.take_append_drop]
            rw [whole] at apart
            exact apart.trans (round.rows.append_left _)
          · rw [← List.length_pos_iff, List.length_take, count]
            omega
          · rw [List.map_cons, List.map_cons, List.filter_cons_of_pos (by simp [count]; omega),
              List.map_cons, round.taken, List.length_take]
          · rw [List.map_cons, List.map_cons, List.filter_cons_of_pos (by simp [count]; omega),
              List.map_cons, round.behind, cutRest, List.length_drop]
      · have none : loader.rest contents stream = [] := by
          rw [← List.length_eq_zero_iff, count]
          omega
        obtain ⟨pool, left, later, further, round, last, same⟩ := induction right others
        refine ⟨pool, left, later, ?_, ?_, last, same⟩
        · rw [Loader.round, next_done ready here (by omega)]
          simp only [bind, Except.bind, further]
          rfl
        · refine ⟨round.inside, ?_, round.some, ?_, ?_⟩
          · rw [List.flatMap_cons, none, List.nil_append]
            exact round.rows
          · rw [List.map_cons, List.filter_cons_of_neg (by simp [none]), round.taken]
          · rw [List.map_cons, List.filter_cons_of_neg (by simp [none]), round.behind]

end Rounds

section Pools

variable {torch : Torch} {columns : List Text} {kind : Text → Kind}

theorem chunks_rows {name : Text} (member : name ∈ columns) (pool : List (List Row)) :
    chunks name (pool.map (columnsOf columns kind)) =
      .ok ((pool.map fun rows => rows.map fun row => row name).map (kind name).tensor) := by
  have reads : ∀ rows ∈ pool, (match (columnsOf columns kind rows).lookup name with
      | none => Except.error (LoadError.keyError name)
      | some tensor => Except.ok tensor) = .ok ((kind name).tensor (rows.map fun row => row name)) := by
    intro rows _
    rw [columnsOf, lookup_map member]
  rw [chunks, List.mapM_map, List.map_map]
  exact map_m_ok reads

theorem joined_rows (lawful : torch.Lawful) {pool : List (List Row)} (some : pool ≠ []) :
    joined torch (pool.map (columnsOf columns kind)) = .ok (columnsOf columns kind pool.flatten) := by
  match pool with
  | [] => exact absurd rfl some
  | [rows] =>
      rw [List.flatten_cons, List.flatten_nil, List.append_nil]
      rfl
  | first :: second :: rest =>
      have each : ∀ name ∈ columns,
          (do
            let chunks ← chunks name ((first :: second :: rest).map (columnsOf columns kind))
            let tensor ← torch.cat chunks
            return (name, tensor) : Except LoadError (Text × Tensor)) =
          .ok (name, (kind name).tensor ((first :: second :: rest).flatten.map fun row => row name)) := by
        intro name member
        rw [chunks_rows member]
        simp only [bind, Except.bind]
        rw [lawful.cat _ _ (by simp), List.map_flatten]
        rfl
      exact (List.mapM_map ..).trans (map_m_ok each)

theorem take_rows {rows : List Row} {order : List Nat}
    (permutes : order.Perm (List.range rows.length)) (kind : Kind) (name : Text) :
    (kind.tensor (rows.map fun row => row name)).take order =
      .ok (kind.tensor ((order.map fun place => rows.getD place fun _ => []).map fun row => row name)) := by
  have reads : ∀ place ∈ order,
      (match (kind.tensor (rows.map fun row => row name)).rows[place]? with
        | none => Except.error LoadError.indexError
        | some row => Except.ok row) = .ok ((rows.getD place fun _ => []) name) := by
    intro place member
    have below := List.mem_range.mp (permutes.mem_iff.mp member)
    rw [Kind.tensor, List.getElem?_map, List.getElem?_eq_getElem below, List.getD_eq_getElem _ _ below]
    rfl
  rw [Tensor.take, map_m_ok reads, List.map_map]
  rfl

theorem reordered_rows (lawful : torch.Lawful) (shuffle : Bool) (draws : Nat) (rows : List Row) :
    ∃ mixed : List Row, mixed.Perm rows ∧
      reordered torch shuffle draws rows.length (columnsOf columns kind rows) =
        .ok (columnsOf columns kind mixed) := by
  cases shuffle with
  | false => exact ⟨rows, List.Perm.refl _, rfl⟩
  | true =>
      have permutes := lawful.randperm draws rows.length
      refine ⟨_, shuffled_perm permutes fun _ => [], ?_⟩
      rw [reordered, if_pos rfl, columnsOf, List.mapM_map]
      apply map_m_ok
      intro name _
      rw [Function.comp_apply]
      dsimp only
      rw [take_rows permutes]
      rfl

theorem share_all {count : Nat} (positive : 0 < count) : share count count = 1 := by
  rw [share, show count + count - 1 = count - 1 + count by omega, Nat.add_div_right _ positive,
    Nat.div_eq_of_lt (by omega)]

def batchesOf (batch : Option Int) (rows : Nat) : Nat :=
  match batch with
  | none => 1
  | some size => share rows size.toNat

theorem cut_given (lawful : torch.Lawful) {batch : Option Int} (sized : ∀ size ∈ batch, 0 < size)
    (shuffle : Bool) (draws : Nat) (wide : columns ≠ []) {pool : List (List Row)} (some : pool ≠ [])
    (filled : pool.flatten ≠ []) :
    ∃ (parts : List (List Row)) (later : Nat), cut torch batch shuffle draws (pool.map (columnsOf columns kind)) =
        .ok (parts.map (columnsOf columns kind), later) ∧
      parts.flatten.Perm pool.flatten ∧ parts.length = batchesOf batch pool.flatten.length := by
  have count := List.length_pos_iff.mpr filled
  rw [cut, joined_rows lawful some]
  generalize pool.flatten = rows at count
  obtain ⟨name, rest, split⟩ := List.exists_cons_of_ne_nil wide
  obtain ⟨mixed, same, ordered⟩ := @reordered_rows torch columns kind lawful shuffle draws rows
  have size : 0 < batch.getD (rows.length : Int) := by
    cases batch with
    | none => exact Int.natCast_pos.mpr count
    | some size => exact sized size rfl
  refine ⟨slices mixed (batch.getD (rows.length : Int)).toNat, if shuffle then draws + 1 else draws,
    ?_, ?_, ?_⟩
  · have first : columnsOf columns kind rows =
        (name, (kind name).tensor (rows.map fun row => row name)) :: columnsOf rest kind rows := by
      rw [columnsOf, split]
      rfl
    have starts : places rows.length (batch.getD (rows.length : Int)) =
        .ok ((List.range (share rows.length (batch.getD (rows.length : Int)).toNat)).map
          (· * (batch.getD (rows.length : Int)).toNat)) := by
      rw [places, if_neg (by omega), if_neg (by omega)]
    have count : ((kind name).tensor (rows.map fun row => row name)).rows.length = rows.length := by
      rw [Kind.tensor, List.length_map]
    have parts : ∀ start, (columnsOf columns kind mixed).map (fun named =>
        (named.1, named.2.part start (batch.getD (rows.length : Int)).toNat)) =
        columnsOf columns kind (fetch mixed start (batch.getD (rows.length : Int)).toNat) := by
      intro start
      rw [columnsOf, columnsOf, List.map_map]
      apply List.map_congr_left
      intro name _
      rw [Function.comp_apply, Tensor.part, Kind.tensor, Kind.tensor]
      dsimp only
      rw [fetch_map]
    rw [first] at ordered
    simp only [bind, Except.bind, pure, Except.pure]
    rw [first]
    dsimp only
    rw [count, ordered]
    dsimp only
    rw [starts]
    dsimp only
    rw [slices, same.length_eq, List.map_map, List.map_map]
    congr 2
    apply List.map_congr_left
    intro index _
    exact parts _
  · rw [slices_joined mixed (by omega)]
    exact same
  · rw [slices_length, same.length_eq]
    cases batch with
    | none => exact share_all count
    | some size => rfl

end Pools

section Counting

/-- How many entries each tree has left, those that have none left out. -/
def Counts (entries : List Int) (counts : List Nat) : Prop :=
  entries.filter (· != 0) = (counts.filter (0 < ·)).map Int.ofNat

variable {entries : List Int} {counts : List Nat} {step : Nat}

theorem counts_any (same : Counts entries counts) :
    entries.any (· != 0) = true ↔ counts.filter (0 < ·) ≠ [] := by
  rw [List.any_eq_true, ← not_iff_not, not_not]
  have none : (∀ value ∈ entries, (value != 0) ≠ true) ↔ entries.filter (· != 0) = [] :=
    List.filter_eq_nil_iff.symm
  push Not
  rw [none, same, List.map_eq_nil_iff]

theorem round_rows_cons (value : Int) (rest : List Int) :
    roundRows step (value :: rest) = min (step : Int) value + roundRows step rest := rfl

theorem round_left_cons (value : Int) (rest : List Int) :
    roundLeft step (value :: rest) = max 0 (value - step) :: roundLeft step rest := rfl

theorem round_rows_filter (entries : List Int) :
    roundRows step entries = roundRows step (entries.filter (· != 0)) := by
  induction entries with
  | nil => rfl
  | cons value rest induction =>
      by_cases zero : value = 0
      · rw [zero, List.filter_cons_of_neg (by simp), ← induction, round_rows_cons,
          Int.min_eq_right (by omega), Int.zero_add]
      · rw [List.filter_cons_of_pos (by simpa using zero), round_rows_cons, round_rows_cons, induction]

theorem round_left_filter (entries : List Int) :
    (roundLeft step entries).filter (· != 0) =
      (roundLeft step (entries.filter (· != 0))).filter (· != 0) := by
  induction entries with
  | nil => rfl
  | cons value rest induction =>
      by_cases zero : value = 0
      · have none : (max 0 ((0 : Int) - step) != 0) = false := by
          rw [bne_eq_false_iff_eq]
          omega
        rw [zero, round_left_cons, List.filter_cons, none, List.filter_cons_of_neg (by simp)]
        exact induction
      · have kept : (value :: rest).filter (· != 0) = value :: rest.filter (· != 0) :=
          List.filter_cons_of_pos (by simpa using zero)
        rw [kept, round_left_cons, round_left_cons, List.filter_cons, List.filter_cons, induction]

theorem counts_rows (same : Counts entries counts) :
    roundRows step entries = (((counts.filter (0 < ·)).map (min step)).sum : Nat) := by
  rw [round_rows_filter, same]
  generalize counts.filter (0 < ·) = some
  induction some with
  | nil => rfl
  | cons count rest induction =>
      rw [List.map_cons, round_rows_cons, induction, List.map_cons, List.sum_cons]
      simp only [Int.ofNat_eq_natCast]
      omega

theorem counts_left (same : Counts entries counts) :
    Counts (roundLeft step entries) ((counts.filter (0 < ·)).map (· - step)) := by
  rw [Counts, round_left_filter, same]
  generalize counts.filter (0 < ·) = some
  induction some with
  | nil => rfl
  | cons count rest induction =>
      have less : max 0 ((Int.ofNat count) - step) = Int.ofNat (count - step) := by
        simp only [Int.ofNat_eq_natCast]
        omega
      rw [List.map_cons, round_left_cons, less, List.map_cons]
      by_cases more : 0 < count - step
      · rw [List.filter_cons_of_pos (by simp; omega), List.filter_cons_of_pos (by simpa using more),
          induction, List.map_cons]
      · rw [List.filter_cons_of_neg (by simp; omega), List.filter_cons_of_neg (by simpa using more),
          induction]

theorem len_done {batch : Option Int} (done : entries.any (· != 0) = false) :
    lenLoop step batch entries = 0 := by
  unfold lenLoop
  rw [dif_neg (by simp [done])]

theorem len_more {batch : Option Int} (more : entries.any (· != 0) = true) (positive : 0 < step) :
    lenLoop step batch entries =
      announced batch (roundRows step entries) + lenLoop step batch (roundLeft step entries) := by
  rw [lenLoop.eq_def, dif_pos ⟨more, positive⟩]

theorem batches_rounded {batch : Option Int} (sized : ∀ size ∈ batch, 0 < size) (rows : Nat) :
    (batchesOf batch rows : Int) = announced batch rows := by
  cases batch with
  | none => rfl
  | some size =>
      have positive := sized size rfl
      have whole : size = (size.toNat : Int) := by omega
      rw [batchesOf, announced, ← share_rounded (show 0 < size.toNat by omega), ← whole,
        Int.fdiv_eq_ediv_of_nonneg _ (by omega)]

end Counting

section Runs

variable {Object Memory : Type} [Inhabited Memory] {loader : Loader Object Memory}
  {contents : Nat → Text → List (List (Piece Object))} {columns : List Text} {kind : Text → Kind}

theorem run_idle {world : World} {streams : List Stream} (some : streams ≠ []) {left : List Stream}
    {later : World} (given : loader.round world streams = .ok ([], left, later)) :
    loader.run world streams = loader.run later left := by
  rw [Loader.run, if_neg some]
  split
  case h_1 raised read =>
      rw [given] at read
      cases read
  case h_2 read =>
      rw [given] at read
      cases read
      rfl
  case h_3 filled read =>
      rw [given] at read
      cases read
      exact (filled rfl).elim

theorem run_busy {world : World} {streams : List Stream} (some : streams ≠ []) {chunk : Tensors}
    {others : List Tensors} {left : List Stream} {later last : World}
    (given : loader.round world streams = .ok (chunk :: others, left, later))
    {batches further : List Tensors} {draws : Nat}
    (cutting : cut loader.torch loader.batch loader.shuffle later.draws (chunk :: others) =
      .ok (batches, draws))
    (behind : loader.run { later with draws := draws } left = .ok (further, last)) :
    loader.run world streams = .ok (batches ++ further, last) := by
  rw [Loader.run, if_neg some]
  split
  case h_1 raised read =>
      rw [given] at read
      cases read
  case h_2 read =>
      rw [given] at read
      cases read
  case h_3 read =>
      rw [given] at read
      cases read
      rw [cutting]
      dsimp only
      rw [behind]

/-- A run gives every row that was to come, once, in as many batches as were announced. -/
theorem run_given (ready : loader.Ready contents columns kind) {world : World}
    (right : loader.Right world) {streams : List Stream}
    (inside : ∀ stream ∈ streams, loader.Inside stream) :
    ∃ (parts : List (List Row)) (later : World),
      loader.run world streams = .ok (parts.map (columnsOf columns kind), later) ∧
      parts.flatten.Perm (streams.flatMap (loader.rest contents)) ∧
      ∀ entries, Counts entries (streams.map fun stream => (loader.rest contents stream).length) →
        (parts.length : Int) = lenLoop loader.step.toNat loader.batch entries := by
  have positive := ready.step
  induction rest : restOf streams using Nat.strong_induction_on generalizing world streams with
  | _ count induction =>
      by_cases none : streams = []
      · refine ⟨[], world, ?_, ?_, ?_⟩
        · rw [Loader.run, if_pos none]
          rfl
        · rw [none]
          exact List.Perm.refl _
        · intro entries same
          rw [none] at same
          rw [len_done]
          · rfl
          · rw [← Bool.not_eq_true]
            exact fun more => (counts_any same).mp more rfl
      · obtain ⟨pool, left, later, given, round, still, _⟩ := round_given ready right inside
        have shorter := (round_rest given).2 none
        have behind := round.behind
        have taken := round.taken
        cases pool with
        | nil =>
            have some : (streams.map fun stream => (loader.rest contents stream).length).filter
                (0 < ·) = [] := by
              rw [List.map_nil] at taken
              exact List.map_eq_nil_iff.mp taken.symm
            obtain ⟨parts, last, ran, rows, counts⟩ :=
              induction _ (by omega) still round.inside rfl
            refine ⟨parts, last, (run_idle none given).trans ran, rows.trans round.rows, ?_⟩
            intro entries same
            apply counts
            rw [behind, some]
            rw [Counts, some] at same
            exact same
        | cons chunk others =>
            have full : chunk ≠ [] := round.some chunk List.mem_cons_self
            have filled : (chunk :: others).flatten ≠ [] := by
              rw [List.flatten_cons]
              exact fun none => full (List.append_eq_nil_iff.mp none).1
            obtain ⟨first, draws, cutting, mixed, many⟩ := cut_given ready.lawful ready.batch
              loader.shuffle later.draws ready.some (List.cons_ne_nil chunk others) filled
            obtain ⟨parts, last, ran, rows, counts⟩ := @induction _ (by omega)
              { later with draws := draws } still left round.inside rfl
            refine ⟨first ++ parts, last, ?_, ?_, ?_⟩
            · rw [List.map_append]
              exact run_busy none given cutting ran
            · rw [List.flatten_append]
              exact (mixed.append rows).trans round.rows
            · intro entries same
              have more : entries.any (· != 0) = true := by
                rw [counts_any same]
                intro none
                rw [none] at taken
                cases taken
              have total : roundRows loader.step.toNat entries = ((chunk :: others).flatten.length : Nat) := by
                rw [counts_rows same, ← taken, List.length_flatten]
              rw [len_more more (by omega), List.length_append, Int.natCast_add, many,
                batches_rounded ready.batch, total, counts (roundLeft loader.step.toNat entries)]
              rw [behind]
              exact counts_left same

def spanRows (sources : Nat → Source Object Memory)
    (contents : Nat → Text → List (List (Piece Object))) (pair : Nat × (Int × Int)) : List Row :=
  fetch ((sources pair.1).rows (contents pair.1)) pair.2.1.toNat (pair.2.2 - pair.2.1).toNat

def Spans (sources : Nat → Source Object Memory) (pair : Nat × (Int × Int)) : Prop :=
  0 ≤ pair.2.1 ∧ pair.2.1 ≤ pair.2.2 ∧ pair.2.2 ≤ (sources pair.1).tree.entries

theorem share_of_bounds {start stop : Int} (low : 0 ≤ start) (ordered : start ≤ stop) {count : Nat}
    (positive : 0 < count) (id : Nat) :
    shareOf (some ⟨id, count⟩) (start, stop) =
      ((shareBound start.toNat stop.toNat count id : Int),
        (shareBound start.toNat stop.toNat count (id + 1) : Int)) := by
  have rounded := @share_rounded (stop - start).toNat count positive
  rw [Int.toNat_of_nonneg (by omega)] at rounded
  have next : (id + 1) * share (stop.toNat - start.toNat) count =
      id * share (stop.toNat - start.toNat) count + share (stop.toNat - start.toNat) count :=
    Nat.succ_mul _ _
  have same : (stop - start).toNat = stop.toNat - start.toNat := by omega
  rw [shareOf]
  dsimp only
  rw [rounded, shareBound, shareBound, next, same]
  generalize share (stop.toNat - start.toNat) count = each
  have product : (id : Int) * (each : Int) = ((id * each : Nat) : Int) := (Int.natCast_mul _ _).symm
  rw [product]
  generalize id * each = before
  refine Prod.ext ?_ ?_
  · dsimp only
    omega
  · dsimp only
    omega

omit [Inhabited Memory] in
theorem streams_rest {worker : Option Worker} {pairs : List (Nat × (Int × Int))}
    (inside : ∀ pair ∈ pairs, (shareOf worker pair.2).2 ≤ (loader.sources pair.1).tree.entries) :
    (pairs.map fun pair => loader.stream pair.1 (shareOf worker pair.2)).flatMap
        (loader.rest contents) =
      pairs.flatMap fun pair => spanRows loader.sources contents (pair.1, shareOf worker pair.2) := by
  rw [List.flatMap_map]
  apply List.flatMap_congr
  intro pair member
  have high := inside pair member
  rw [Loader.rest, Loader.stream, spanRows]
  dsimp only
  rw [Int.min_eq_left high]

omit [Inhabited Memory] in
theorem share_inside {sources : Nat → Source Object Memory} {pair : Nat × (Int × Int)}
    (spans : Spans sources pair) {worker : Option Worker}
    (working : ∀ one ∈ worker, 0 < one.numWorkers) :
    0 ≤ (shareOf worker pair.2).1 ∧
      (shareOf worker pair.2).2 ≤ (sources pair.1).tree.entries := by
  obtain ⟨low, ordered, high⟩ := spans
  cases worker with
  | none => exact ⟨low, high⟩
  | some worker =>
      have shared := share_of_bounds low ordered (working worker rfl) worker.id
      rw [show pair.2 = (pair.2.1, pair.2.2) from rfl, shared, shareBound, shareBound]
      dsimp only
      omega

theorem iterate_given (ready : loader.Ready contents columns kind) {world : World}
    (right : loader.Right world) {worker : Option Worker}
    (working : ∀ one ∈ worker, 0 < one.numWorkers)
    (spans : ∀ pair ∈ loader.trees.zip loader.ranges, Spans loader.sources pair) :
    ∃ (parts : List (List Row)) (later : World),
      loader.iterate worker world = .ok (parts.map (columnsOf columns kind), later) ∧
      parts.flatten.Perm ((loader.trees.zip loader.ranges).flatMap fun pair =>
        spanRows loader.sources contents (pair.1, shareOf worker pair.2)) ∧
      ∀ entries, Counts entries ((loader.trees.zip loader.ranges).map fun pair =>
          ((shareOf worker pair.2).2 - (shareOf worker pair.2).1).toNat) →
        (parts.length : Int) = lenLoop loader.step.toNat loader.batch entries := by
  have inside : ∀ stream ∈ (loader.trees.zip loader.ranges).map fun pair =>
      loader.stream pair.1 (shareOf worker pair.2), loader.Inside stream := by
    intro stream listed
    obtain ⟨pair, member, rfl⟩ := List.mem_map.mp listed
    exact ⟨(List.of_mem_zip member).1, (share_inside (spans pair member) working).1, Int.min_le_right _ _⟩
  have within : ∀ pair ∈ loader.trees.zip loader.ranges,
      (shareOf worker pair.2).2 ≤ (loader.sources pair.1).tree.entries := fun pair member =>
    (share_inside (spans pair member) working).2
  obtain ⟨parts, later, ran, rows, counts⟩ := run_given ready right inside
  refine ⟨parts, later, ran, ?_, ?_⟩
  · rw [streams_rest within] at rows
    exact rows
  · intro entries same
    apply counts
    have lengths : ((loader.trees.zip loader.ranges).map fun pair =>
        loader.stream pair.1 (shareOf worker pair.2)).map (fun stream =>
          (loader.rest contents stream).length) =
        (loader.trees.zip loader.ranges).map fun pair =>
          ((shareOf worker pair.2).2 - (shareOf worker pair.2).1).toNat := by
      rw [List.map_map]
      apply List.map_congr_left
      intro pair member
      have here := inside _ (List.mem_map_of_mem member)
      rw [Function.comp_apply, rest_length here, Loader.stream]
      dsimp only
      rw [Int.min_eq_left (within pair member)]
    rw [lengths]
    exact same

omit [Inhabited Memory] in
theorem shares_span {sources : Nat → Source Object Memory}
    (contents : Nat → Text → List (List (Piece Object))) {pair : Nat × (Int × Int)}
    (spans : Spans sources pair) {count : Nat} (positive : 0 < count) :
    ((List.range count).flatMap fun id =>
        spanRows sources contents (pair.1, shareOf (some ⟨id, count⟩) pair.2)) =
      spanRows sources contents pair := by
  obtain ⟨low, ordered, high⟩ := spans
  have joined := shares_joined ((sources pair.1).rows (contents pair.1)) positive
    (show pair.2.1.toNat ≤ pair.2.2.toNat by omega)
  have whole : pair.2.2.toNat - pair.2.1.toNat = (pair.2.2 - pair.2.1).toNat := by omega
  rw [whole] at joined
  rw [spanRows, ← joined]
  apply List.flatMap_congr
  intro id _
  rw [show pair.2 = (pair.2.1, pair.2.2) from rfl, share_of_bounds low ordered positive, spanRows]
  dsimp only
  congr 1
  omega

theorem counts_of_lengths (counts : List Nat) : Counts (counts.map Int.ofNat) counts := by
  induction counts with
  | nil => rfl
  | cons count rest induction =>
      rw [Counts] at induction
      rw [Counts, List.map_cons]
      by_cases some : 0 < count
      · rw [List.filter_cons_of_pos (by simp; omega), List.filter_cons_of_pos (by simpa using some),
          induction, List.map_cons]
      · rw [List.filter_cons_of_neg (by simp; omega), List.filter_cons_of_neg (by simpa using some),
          induction]

end Runs

/-- A loader over spans of several trees gives every row of them once, whatever the workers it is
shared out to; outside a worker it has as many batches as it says. -/
theorem epoch_exact {Object Memory : Type} [Inhabited Memory] (torch : Option Worker → Torch)
    (sources : Nat → Source Object Memory) (trees : List Nat) (names : Option (List Text)) (step : Int)
    (batch : Option Int) (shuffle : Bool) (spans : Option (List (Int × Int)))
    (contents : Nat → Text → List (List (Piece Object))) (columns : List Text) (kind : Text → Kind)
    (world : Option Worker → World) (lawful : ∀ worker, (torch worker).Lawful) (filled : trees ≠ [])
    (apiece : (rangesOf sources trees spans).length = trees.length)
    (spanned : ∀ pair ∈ trees.zip (rangesOf sources trees spans), Spans sources pair)
    (stepped : 1 ≤ step) (sized : ∀ size ∈ batch, 1 ≤ size) (columned : columns ≠ [])
    (feeds : ∀ tree ∈ trees, (sources tree).Feeds (contents tree) names columns kind)
    (right : ∀ worker, ∀ tree ∈ trees, (sources tree).tree.Right ((world worker).caches tree)) :
    ∃ loaders : Option Worker → Loader Object Memory,
      (∀ worker, mixed (torch worker) sources trees names step batch shuffle spans =
        .ok (loaders worker)) ∧
      (∀ count, 1 ≤ count → ∃ parts : Nat → List (List Row),
        (∀ id < count, ∃ later, (loaders (some ⟨id, count⟩)).iterate (some ⟨id, count⟩)
          (world (some ⟨id, count⟩)) = .ok ((parts id).map (columnsOf columns kind), later)) ∧
        ((List.range count).flatMap fun id => (parts id).flatten).Perm
          ((trees.zip (rangesOf sources trees spans)).flatMap (spanRows sources contents))) ∧
      ∃ (parts : List (List Row)) (later : World),
        (loaders none).iterate none (world none) = .ok (parts.map (columnsOf columns kind), later) ∧
        parts.flatten.Perm
          ((trees.zip (rangesOf sources trees spans)).flatMap (spanRows sources contents)) ∧
        (loaders none).len = parts.length := by
  have ready : ∀ worker, Loader.Ready ⟨torch worker, sources, trees, names, step, batch, shuffle,
      rangesOf sources trees spans⟩ contents columns kind := fun worker =>
    ⟨lawful worker, stepped, sized, columned, feeds⟩
  refine ⟨fun worker => ⟨torch worker, sources, trees, names, step, batch, shuffle,
    rangesOf sources trees spans⟩, ?_, ?_, ?_⟩
  · intro worker
    rw [mixed, if_neg filled]
    dsimp only
    rw [if_neg (by simpa using apiece)]
  · intro count positive
    have each : ∀ id, ∃ (parts : List (List Row)) (later : World),
        Loader.iterate ⟨torch (some ⟨id, count⟩), sources, trees, names, step, batch, shuffle,
          rangesOf sources trees spans⟩ (some ⟨id, count⟩) (world (some ⟨id, count⟩)) =
          .ok (parts.map (columnsOf columns kind), later) ∧
        parts.flatten.Perm ((trees.zip (rangesOf sources trees spans)).flatMap fun pair =>
          spanRows sources contents (pair.1, shareOf (some ⟨id, count⟩) pair.2)) := by
      intro id
      have working : ∀ one ∈ (some ⟨id, count⟩ : Option Worker), 0 < one.numWorkers := by
        intro one given
        cases given
        exact positive
      obtain ⟨parts, later, ran, rows, _⟩ := iterate_given (ready (some ⟨id, count⟩))
        (right (some ⟨id, count⟩)) working spanned
      exact ⟨parts, later, ran, rows⟩
    choose parts later ran rows using each
    refine ⟨parts, fun id _ => ⟨later id, ran id⟩, ?_⟩
    have shared := List.Perm.flatMap_left (List.range count) fun id _ => rows id
    have gathered := gathered_perm (List.range count) (trees.zip (rangesOf sources trees spans))
      fun id pair => spanRows sources contents (pair.1, shareOf (some ⟨id, count⟩) pair.2)
    have whole : ((trees.zip (rangesOf sources trees spans)).flatMap fun pair =>
        (List.range count).flatMap fun id =>
          spanRows sources contents (pair.1, shareOf (some ⟨id, count⟩) pair.2)) =
        (trees.zip (rangesOf sources trees spans)).flatMap (spanRows sources contents) :=
      List.flatMap_congr fun pair member => shares_span contents (spanned pair member) positive
    rw [whole] at gathered
    exact shared.trans gathered
  · obtain ⟨parts, later, ran, rows, counts⟩ := @iterate_given _ _ _ _ contents columns kind (ready none)
      (world none) (right none) none (fun _ none => by cases none) spanned
    refine ⟨parts, later, ran, rows, ?_⟩
    rw [counts ((rangesOf sources trees spans).map fun span => span.2 - span.1)]
    · rfl
    · have same : (rangesOf sources trees spans).map (fun span => span.2 - span.1) =
          ((trees.zip (rangesOf sources trees spans)).map fun pair =>
            (pair.2.2 - pair.2.1).toNat).map Int.ofNat := by
        rw [List.map_map]
        conv_lhs => rw [← List.map_snd_zip (Nat.le_of_eq apiece), List.map_map]
        apply List.map_congr_left
        intro pair member
        have ordered := (spanned pair member).2.1
        rw [Function.comp_apply, Function.comp_apply, Int.ofNat_eq_natCast]
        omega
      rw [same]
      exact counts_of_lengths _

def catenated : List Tensor → Except LoadError Tensor
  | [] => .error .torchError
  | first :: rest =>
      if rest.all fun tensor => tensor.dtype = first.dtype ∧ tensor.width = first.width then
        .ok { first with rows := first.rows ++ rest.flatMap Tensor.rows }
      else .error .torchError

def turning : Torch where
  frombuffer _ values := if values = [] then .error (.valueError "") else .ok values
  randperm _ count := (List.range count).reverse
  cat := catenated

theorem turning_lawful : turning.Lawful where
  frombuffer _ _ some := if_neg some
  randperm _ _ := List.reverse_perm _
  cat := by
    intro kind chunks some
    obtain ⟨first, rest, rfl⟩ := List.exists_cons_of_ne_nil some
    have alike : (rest.map kind.tensor).all (fun tensor =>
        tensor.dtype = (kind.tensor first).dtype ∧ tensor.width = (kind.tensor first).width) = true := by
      rw [List.all_map, List.all_eq_true]
      intro rows _
      exact decide_eq_true ⟨rfl, rfl⟩
    have joined : (rest.map kind.tensor).flatMap Tensor.rows = rest.flatten := by
      rw [List.flatMap_map]
      exact List.flatMap_id
    rw [List.map_cons, turning]
    dsimp only
    rw [catenated, if_pos alike, joined]
    rfl

/-- The tree of three entries, its numbers as they are counted. -/
def threeNumbers : Branch Int Unit Unit :=
  { threeBytes with column := .flat 1 1 fun raw => (raw.headD 0).toNat }

def threeSource : Source Unit Unit where
  tree := ⟨3, [(str "n", threeNumbers)]⟩
  code _ := .B

theorem three_numbers_hold : threeNumbers.Holds threePieces :=
  ⟨three_bytes_hold.sized, three_bytes_hold.baskets, three_bytes_hold.starts, three_bytes_hold.entries,
    three_bytes_hold.loads⟩

theorem three_source_feeds :
    threeSource.Feeds (fun _ => threePieces) none [str "n"] fun _ => ⟨.uint8, 1⟩ where
  holds := by
    intro name branch found
    simp only [threeSource, List.lookup] at found
    split at found
    case h_1 =>
        cases found
        exact ⟨three_numbers_hold, rfl⟩
    case h_2 => cases found
  asked := rfl
  fixed := by
    intro name member
    rw [List.mem_singleton.mp member]
    exact ⟨threeNumbers, 1, _, rfl, rfl, rfl, fun _ _ _ _ => rfl⟩

theorem three_numbers_mixed : ∃ loader : Loader Unit Unit,
    mixed turning (fun _ => threeSource) [0, 0] none 2 (some 2) true (some [(1, 3), (0, 3)]) =
      .ok loader ∧
    ∃ (parts : List (List Row)) (later : World),
      loader.iterate none ⟨fun _ _ => none, 0⟩ =
        .ok (parts.map (columnsOf [str "n"] fun _ => ⟨.uint8, 1⟩), later) ∧
      parts.flatten.Perm ([(0, ((1 : Int), (3 : Int))), (0, (0, 3))].flatMap
        (spanRows (fun _ => threeSource) fun _ _ => threePieces)) ∧
      loader.len = parts.length := by
  obtain ⟨loaders, made, _, parts, later, ran, rows, many⟩ :=
    epoch_exact (fun _ => turning) (fun _ => threeSource) [0, 0] none 2 (some 2) true
      (some [(1, 3), (0, 3)]) (fun _ _ => threePieces) [str "n"] (fun _ => ⟨.uint8, 1⟩)
      (fun _ => ⟨fun _ _ => none, 0⟩) (fun _ => turning_lawful) (by decide) rfl
      (by
        intro pair member
        have both : pair = (0, (1, 3)) ∨ pair = (0, (0, 3)) := by
          simpa [rangesOf] using member
        rcases both with rfl | rfl
        all_goals
          refine ⟨?_, ?_, ?_⟩
          all_goals decide)
      (by decide) (by intro size given; cases given; decide) (by decide)
      (fun _ _ => three_source_feeds) (fun _ _ _ name branch _ index basket held => by cases held)
  exact ⟨loaders none, made none, parts, later, ran, rows, many⟩

def wideNumber : Branch Int Unit Unit where
  column := .flat 1 8 fun raw => BigEndian.decode raw
  offset := 0
  entries := 1
  inline_ := [⟨0, 8, 1, 8, [128, 0, 0, 0, 0, 0, 0, 0], []⟩]
  seeks := 0
  keyed _ := .error .indexError
  basketEntry := [0, 1]

def wideSource : Source Unit Unit where
  tree := ⟨1, [(str "n", wideNumber)]⟩
  code _ := .Q

def widePieces : List (List (Piece Unit)) := [[.bytes [128, 0, 0, 0, 0, 0, 0, 0]]]

theorem wide_number_holds : wideNumber.Holds widePieces where
  sized := ⟨by decide, by decide⟩
  baskets := rfl
  starts := by
    intro index below
    have cases : index = 0 ∨ index = 1 := by
      have length : widePieces.length = 1 := rfl
      omega
    rcases cases with rfl | rfl
    all_goals rfl
  entries := rfl
  loads := by
    intro index chunk here
    have first : index = 0 := by
      have inside := (List.getElem?_eq_some_iff.mp here).1
      have length : widePieces.length = 1 := rfl
      omega
    rw [first] at here ⊢
    cases here
    refine ⟨_, rfl, ?_⟩
    intro entry piece held
    have only : entry = 0 := by
      have inside := (List.getElem?_eq_some_iff.mp held).1
      simp only [List.length_cons, List.length_nil] at inside
      omega
    rw [only] at held ⊢
    cases held
    exact ⟨rfl, rfl⟩

theorem run_refused {Object Memory : Type} [Inhabited Memory] {loader : Loader Object Memory}
    {world : World} {streams : List Stream} (some : streams ≠ []) {raised : LoadError}
    (refused : loader.round world streams = .error raised) :
    loader.run world streams = .error raised := by
  rw [Loader.run, if_neg some]
  split
  case h_1 read =>
      rw [refused] at read
      cases read
      rfl
  case h_2 read =>
      rw [refused] at read
      cases read
  case h_3 read =>
      rw [refused] at read
      cases read

theorem wide_number_next (torch : Torch) (ranges : List (Int × Int)) :
    Loader.next ⟨torch, fun _ => wideSource, [0], none, 1, none, false, ranges⟩
      ⟨fun _ _ => none, 0⟩ ⟨0, 0, 1⟩ = .error (tooLarge .int64) := by
  have reads : ∃ caches, wideSource.tree.arrays (fun _ => none) (some [str "n"]) 0
      (some (min (0 + 1) 1)) = .ok ([(str "n", .flat [2 ^ 63])], caches) := ⟨_, rfl⟩
  obtain ⟨caches, reads⟩ := reads
  have widths : (wanted wideSource none).mapM (widthOf wideSource) = .ok [none] := rfl
  have names : wanted wideSource none = [str "n"] := rfl
  have refused : toTensors torch wideSource [(str "n", .flat [2 ^ 63])] =
      .error (tooLarge .int64) := rfl
  rw [Loader.next]
  dsimp only
  rw [widths, names, if_pos (show (0 : Int) < 1 by decide), if_neg (show ¬(1 : Int) ≤ 0 by decide), reads]
  dsimp only
  rw [refused]
  rfl

/-- A tree of one column of one width, one entry in it; a loader over it raises. -/
theorem wide_number_refused :
    wideNumber.Holds widePieces ∧ wideNumber.entries = wideSource.tree.entries ∧
      ∀ torch : Torch, ∃ loader : Loader Unit Unit,
        mixed torch (fun _ => wideSource) [0] none 1 none false none = .ok loader ∧
        loader.iterate none ⟨fun _ _ => none, 0⟩ = .error (tooLarge .int64) := by
  refine ⟨wide_number_holds, rfl, ?_⟩
  intro torch
  refine ⟨_, rfl, ?_⟩
  have refused : Loader.round ⟨torch, fun _ => wideSource, [0], none, 1, none, false, [(0, 1)]⟩
      ⟨fun _ _ => none, 0⟩ [⟨0, 0, 1⟩] = .error (tooLarge .int64) := by
    rw [Loader.round, wide_number_next]
    rfl
  exact run_refused (List.cons_ne_nil _ _) refused

end XRootDClient.Root.Ml

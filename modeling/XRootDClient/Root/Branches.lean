import XRootDClient.Lib.Extent
import XRootDClient.Lib.Stateful
import XRootDClient.Lib.Text
import XRootDClient.Root.Buffer

/-!
# Columns of a tree, read over a range of entries

A column is cut into baskets, and reading a range takes the part of each basket that
the range meets. The last basket read is remembered. Bounds may be negative, counted
from the end of the column; `arrays` counts them once, and `iterate` steps through
them as they are given and has every batch count its own.
-/

set_option autoImplicit false

namespace XRootDClient.Root.Branches

open Lib Lib.BigEndian Lib.Extent

inductive ReadError
  | keyError (name : Text)
  | valueError (message : String)
  | indexError
  | formatError (message : String)
  | other
  deriving DecidableEq

structure Basket where
  keylen : Int
  nevsize : Int
  nevbuf : Int
  last : Int
  data : Bytes
  offsets : List Int

def Basket.startOf (basket : Basket) (entry : Nat) (offset : Int) : Except ReadError Int :=
  if basket.offsets = [] then .ok (entry * basket.nevsize + offset)
  else
    match basket.offsets[entry]? with
    | none => .error .indexError
    | some at_ => .ok (at_ - basket.keylen + offset)

def Basket.endOf (basket : Basket) (entry : Nat) : Except ReadError Int :=
  if (entry : Int) + 1 < basket.nevbuf then
    match basket.offsets[entry + 1]? with
    | none => .error .indexError
    | some boundary => .ok (boundary - basket.keylen)
  else .ok (basket.last - basket.keylen)

/-- How the bytes of a column turn into values. `Memory` is what a reader of whole objects
keeps from one entry of a basket to the next. -/
inductive Column (Item Object Memory : Type)
  | flat (length itemsize : Nat) (item : Bytes → Item)
  | rows (itemsize header : Nat) (counted : Bool) (item : Bytes → Item)
  | values (read : Basket → Memory → Int → Except ReadError (Object × Memory))

/-- What reading a column gives: an array, rows with where each starts, or a list. -/
inductive Out (Item Object : Type)
  | flat (values : List Item)
  | jagged (content : List Item) (offsets : List Int)
  | list (objects : List Object)

abbrev Cache := Option (Nat × Basket)

structure Branch (Item Object Memory : Type) where
  column : Column Item Object Memory
  offset : Int
  entries : Nat
  inline_ : List Basket
  seeks : Nat
  keyed : Nat → Except ReadError Basket
  basketEntry : List Nat

section Reading

variable {Item Object Memory : Type}

def Branch.numBaskets (branch : Branch Item Object Memory) : Nat :=
  max branch.seeks branch.inline_.length

def bounds (total : Nat) (start : Int) (stop : Option Int) : Int × Int :=
  let start := if start < 0 then total + start else start
  let stop := stop.getD total
  let stop := if stop < 0 then stop + total else stop
  (max start 0, min stop total)

structure Span where
  index : Nat
  low : Nat
  high : Nat

def spanOf (low high : Nat) (start stop : Int) (index : Nat) : List Span :=
  if high ≤ start ∨ stop ≤ low then []
  else [⟨index, (max start low - low).toNat, (min stop high - low).toNat⟩]

def Branch.spans (branch : Branch Item Object Memory) (start stop : Int) : List Span :=
  (List.range branch.numBaskets).flatMap fun index =>
    spanOf (branch.basketEntry.getD index 0) (branch.basketEntry.getD (index + 1) 0) start stop index

def Branch.basket (branch : Branch Item Object Memory) (cached : Cache) (index : Nat) :
    Except ReadError (Basket × Cache) :=
  match branch.inline_[index]? with
  | some basket => .ok (basket, cached)
  | none =>
      let fresh : Except ReadError (Basket × Cache) := do
        let basket ← branch.keyed index
        return (basket, some (index, basket))
      match cached with
      | some (held, basket) => if held = index then .ok (basket, cached) else fresh
      | none => fresh

def Span.entries (span : Span) : List Nat := List.range' span.low (span.high - span.low)

def flatEntry (size : Nat) (offset : Int) (basket : Basket) (entry : Nat) :
    Except ReadError Bytes := do
  let at_ ← basket.startOf entry offset
  return slice basket.data at_ (at_ + size)

def collect {Value : Type} (read : Nat → Except ReadError Value) :
    List Nat → Except ReadError (List Value)
  | [] => .ok []
  | entry :: rest => do
      let value ← read entry
      let values ← collect read rest
      return value :: values

/-- One span of a column of fixed size: the whole run at once where it can be. -/
def flatSpan (size : Nat) (offset : Int) (basket : Basket) (span : Span) :
    Except ReadError Bytes :=
  if basket.offsets = [] ∧ offset = 0 ∧ basket.nevsize = size then
    .ok (slice basket.data (span.low * size : Nat) (span.high * size : Nat))
  else do
    let pieces ← collect (flatEntry size offset basket) span.entries
    return pieces.flatten

/-- `Rows.span`, and then the count and the bytes of the row. -/
def rowEntry (itemsize header : Nat) (counted : Bool) (offset : Int) (basket : Basket)
    (entry : Nat) : Except ReadError (Int × Bytes) := do
  let at_ ← basket.startOf entry offset
  let start := at_ + header
  let end_ ← basket.endOf entry
  if counted then
    match unpackFrom basket.data (start - 4) 4 with
    | .error _ => .error .other
    | .ok field =>
        let count := decode field
        let stop := start + (count * itemsize : Nat)
        if end_ < stop then
          .error (.formatError
            (s!"an entry says it holds {count} values, which do not fit in the " ++
              s!"{end_ - start} bytes it was written into"))
        else return ((stop - start) / itemsize, slice basket.data start stop)
  else return ((end_ - start) / itemsize, slice basket.data start end_)

def objectEntries (read : Basket → Memory → Int → Except ReadError (Object × Memory)) (offset : Int)
    (basket : Basket) : Memory → List Nat → Except ReadError (List Object)
  | _, [] => .ok []
  | memory, entry :: rest => do
      let at_ ← basket.startOf entry offset
      let (object, memory) ← read basket memory (at_ + basket.keylen)
      let objects ← objectEntries read offset basket memory rest
      return object :: objects

def Branch.collectSpans {Value : Type} (branch : Branch Item Object Memory)
    (read : Basket → Span → Except ReadError Value) :
    Cache → List Span → Except ReadError (List Value × Cache)
  | cached, [] => .ok ([], cached)
  | cached, span :: rest => do
      let (basket, cached) ← branch.basket cached span.index
      let value ← read basket span
      let (values, cached) ← branch.collectSpans read cached rest
      return (value :: values, cached)

def items (itemsize : Nat) (item : Bytes → Item) : Nat → Bytes → List Item
  | 0, _ => []
  | count + 1, raw => item (raw.take itemsize) :: items itemsize item count (raw.drop itemsize)

/-- `column.decode`: bytes that are not a whole number of values are refused. -/
def decodeItems (itemsize : Nat) (item : Bytes → Item) (raw : Bytes) : Except ReadError (List Item) :=
  if raw.length % itemsize ≠ 0 then .error .other
  else .ok (items itemsize item (raw.length / itemsize) raw)

def rowStarts : Int → List Int → List Int
  | total, [] => [total]
  | total, count :: rest => total :: rowStarts (total + count) rest

/-- `Branch.array`, with what is remembered before and after. -/
def Branch.array [Inhabited Memory] (branch : Branch Item Object Memory) (cached : Cache)
    (entryStart : Int) (entryStop : Option Int) : Except ReadError (Out Item Object × Cache) :=
  let (start, stop) := bounds branch.entries entryStart entryStop
  let spans := branch.spans start stop
  match branch.column with
  | .flat length itemsize item => do
      let (pieces, cached) ←
        branch.collectSpans (flatSpan (length * itemsize) branch.offset) cached spans
      let values ← decodeItems itemsize item pieces.flatten
      return (.flat values, cached)
  | .rows itemsize header counted item => do
      let (pieces, cached) ← branch.collectSpans
        (fun basket span =>
          collect (rowEntry itemsize header counted branch.offset basket) span.entries) cached spans
      let rows := pieces.flatten
      let values ← decodeItems itemsize item (rows.map Prod.snd).flatten
      return (.jagged values (rowStarts 0 (rows.map Prod.fst)), cached)
  | .values read => do
      let (pieces, cached) ← branch.collectSpans
        (fun basket span => objectEntries read branch.offset basket default span.entries) cached spans
      return (.list pieces.flatten, cached)

inductive Piece (Object : Type)
  | bytes (raw : Bytes)
  | row (count : Nat) (raw : Bytes)
  | object (value : Object)

def Piece.raw : Piece Object → Bytes
  | .bytes raw => raw
  | .row _ raw => raw
  | .object _ => []

def Piece.count : Piece Object → Nat
  | .row count _ => count
  | _ => 0

def Piece.object? : Piece Object → Option Object
  | .object value => some value
  | _ => none

def Branch.load (branch : Branch Item Object Memory) (index : Nat) : Except ReadError Basket :=
  match branch.inline_[index]? with
  | some basket => .ok basket
  | none => branch.keyed index

/-- An entry of a basket reads as a piece, whatever was read before it. -/
def Reads (column : Column Item Object Memory) (offset : Int) (basket : Basket) (entry : Nat) :
    Piece Object → Prop
  | .bytes raw =>
      match column with
      | .flat length itemsize _ =>
          flatEntry (length * itemsize) offset basket entry = .ok raw ∧ raw.length = length * itemsize
      | _ => False
  | .row count raw =>
      match column with
      | .rows itemsize header counted _ =>
          rowEntry itemsize header counted offset basket entry = .ok (count, raw) ∧
            raw.length = count * itemsize
      | _ => False
  | .object value =>
      match column with
      | .values read => ∃ at_, basket.startOf entry offset = .ok at_ ∧
          ∀ memory, ∃ next, read basket memory (at_ + basket.keylen) = .ok (value, next)
      | _ => False

/-- Values have a width, and entries of fixed size at least one value. -/
def Column.Sized : Column Item Object Memory → Prop
  | .flat length itemsize _ => 0 < length ∧ 0 < itemsize
  | .rows itemsize _ _ _ => 0 < itemsize
  | .values _ => True

/-- The branch holds these entries, basket by basket. -/
structure Branch.Holds (branch : Branch Item Object Memory) (chunks : List (List (Piece Object))) :
    Prop where
  sized : branch.column.Sized
  baskets : chunks.length = branch.numBaskets
  starts : ∀ index ≤ chunks.length,
    branch.basketEntry.getD index 0 = (chunks.take index).flatten.length
  entries : branch.entries = chunks.flatten.length
  loads : ∀ index chunk, chunks[index]? = some chunk → ∃ basket, branch.load index = .ok basket ∧
    ∀ entry piece, chunk[entry]? = some piece → Reads branch.column branch.offset basket entry piece

def Branch.Right (branch : Branch Item Object Memory) (cached : Cache) : Prop :=
  ∀ index basket, cached = some (index, basket) → branch.load index = .ok basket

theorem Branch.basket_load {branch : Branch Item Object Memory} {cached : Cache}
    (right : branch.Right cached) {index : Nat} {basket : Basket}
    (loads : branch.load index = .ok basket) :
    ∃ later, branch.basket cached index = .ok (basket, later) ∧ branch.Right later := by
  have known := loads
  rw [Branch.load] at loads
  unfold Branch.basket
  split at loads
  case h_1 held inside =>
      cases loads
      exact ⟨cached, rfl, right⟩
  case h_2 outside =>
      have fresh : branch.Right (some (index, basket)) := by
        intro other held same
        cases same
        exact known
      rw [loads]
      dsimp only
      split
      case h_1 held memory =>
          split
          case isTrue same =>
              have agrees := right _ _ rfl
              rw [same, known] at agrees
              cases agrees
              exact ⟨_, rfl, right⟩
          case isFalse => exact ⟨_, rfl, fresh⟩
      case h_2 => exact ⟨_, rfl, fresh⟩

theorem fetch_joined {Value : Type} (front back : List Value) (start length : Nat) :
    fetch (front ++ back) start length =
      fetch front start length ++
        fetch back (start - front.length) (length - (front.length - start)) := by
  rw [fetch, List.drop_append, List.take_append, List.length_drop]
  rfl

def Span.cut {Value : Type} (chunks : List (List Value)) (span : Span) : List Value :=
  fetch (chunks.getD span.index []) span.low (span.high - span.low)

theorem span_of_cut {Value : Type} {chunks : List (List Value)} {index low high : Nat}
    (sized : high = low + (chunks.getD index []).length) (start : Nat) (stop : Int) :
    (spanOf low high start stop index).flatMap (Span.cut chunks) =
      fetch (chunks.getD index []) (start - low) ((stop - start).toNat - (low - start)) := by
  rw [spanOf]
  split
  case isTrue apart =>
      symm
      rw [List.flatMap_nil, fetch]
      rcases apart with behind | before
      · rw [List.drop_eq_nil_of_le (by omega), List.take_nil]
      · rw [show (stop - start).toNat - (low - start) = 0 by omega, List.take_zero]
  case isFalse meets =>
      rw [List.flatMap_singleton, Span.cut]
      dsimp only
      rw [show (max (start : Int) low - low).toNat = start - low by omega]
      by_cases inside : stop ≤ high
      · rw [show (min stop high - low).toNat - (start - low) =
          (stop - start).toNat - (low - start) by omega]
      · -- The range goes on behind the basket: all that is left of it is taken.
        rw [fetch, fetch, List.take_of_length_le, List.take_of_length_le]
        · rw [List.length_drop]
          omega
        · rw [List.length_drop]
          omega

theorem take_flatten {Value : Type} {chunks : List (List Value)} {index : Nat}
    (within : index < chunks.length) :
    (chunks.take (index + 1)).flatten = (chunks.take index).flatten ++ chunks.getD index [] := by
  have here : chunks.take (index + 1) = chunks.take index ++ [chunks.getD index []] := by
    rw [List.take_add_one, List.getElem?_eq_getElem within, List.getD_eq_getElem?_getD,
      List.getElem?_eq_getElem within]
    rfl
  rw [here, List.flatten_append, List.flatten_singleton]

theorem Branch.Holds.next {branch : Branch Item Object Memory}
    {chunks : List (List (Piece Object))} (holds : branch.Holds chunks) {index : Nat}
    (within : index < chunks.length) :
    branch.basketEntry.getD (index + 1) 0 =
      branch.basketEntry.getD index 0 + (chunks.getD index []).length := by
  rw [holds.starts (index + 1) within, holds.starts index (by omega), take_flatten within,
    List.length_append]

theorem spans_cut {branch : Branch Item Object Memory} {chunks : List (List (Piece Object))}
    (holds : branch.Holds chunks) (start : Nat) (stop : Int) :
    (branch.spans start stop).flatMap (Span.cut chunks) =
      fetch chunks.flatten start (stop - start).toNat := by
  have front : ∀ count ≤ chunks.length,
      ((List.range count).flatMap fun index =>
        spanOf (branch.basketEntry.getD index 0) (branch.basketEntry.getD (index + 1) 0) start stop
          index).flatMap (Span.cut chunks) =
        fetch (chunks.take count).flatten start (stop - start).toNat := by
    intro count within
    induction count with
    | zero => simp [fetch]
    | succ count induction =>
        rw [List.range_succ, List.flatMap_append, List.flatMap_append, induction (by omega),
          List.flatMap_singleton, span_of_cut (holds.next within), take_flatten within, fetch_joined,
          holds.starts count (by omega)]
  have all := front chunks.length (Nat.le_refl _)
  rw [List.take_length] at all
  rw [Branch.spans, ← holds.baskets]
  exact all

theorem collect_fetch {Value Held : Type} {read : Nat → Except ReadError Value} {chunk : List Held}
    {turn : Held → Value} (reads : ∀ entry held, chunk[entry]? = some held → read entry = .ok (turn held))
    {low count : Nat} (within : count = 0 ∨ low + count ≤ chunk.length) :
    collect read (List.range' low count) = .ok ((fetch chunk low count).map turn) := by
  induction count generalizing low with
  | zero => simp [collect, fetch]
  | succ count induction =>
      have inside : low < chunk.length := by omega
      have here := reads low _ (List.getElem?_eq_getElem inside)
      rw [List.range'_succ, collect, here, induction (by omega), fetch, fetch,
        List.drop_eq_getElem_cons inside, List.take_succ_cons]
      rfl

theorem collect_each {Value : Type} {read : Nat → Except ReadError Value} {turn : Nat → Value}
    (reads : ∀ entry, read entry = .ok (turn entry)) (entries : List Nat) :
    collect read entries = .ok (entries.map turn) := by
  induction entries with
  | nil => rfl
  | cons entry rest induction =>
      rw [collect, reads entry, induction]
      rfl

theorem slice_nat (data : Bytes) (start stop : Nat) :
    slice data start stop = fetch data start (stop - start) := by
  have clamped : ∀ index : Nat, clamp data.length index = min index data.length := by
    intro index
    rw [clamp, if_neg (by omega), Int.toNat_natCast]
  rw [slice, clamped, clamped]
  by_cases inside : start ≤ data.length
  · rw [Nat.min_eq_left inside]
    by_cases ends : stop ≤ data.length
    · rw [Nat.min_eq_left ends]
    · rw [Nat.min_eq_right (by omega), fetch_all data (Nat.le_refl _), fetch_all data (by omega)]
  · have nothing : ∀ length, fetch data start length = [] := by
      intro length
      rw [fetch, List.drop_eq_nil_of_le (by omega), List.take_nil]
    rw [nothing, Nat.min_eq_right (by omega), fetch, List.drop_length, List.take_nil]

theorem slices_flatten (data : Bytes) (size low count : Nat) :
    ((List.range' low count).map fun entry =>
        slice data (entry * size : Nat) ((entry + 1) * size : Nat)).flatten =
      slice data (low * size : Nat) ((low + count) * size : Nat) := by
  induction count generalizing low with
  | zero =>
      rw [slice_nat, Nat.add_zero, Nat.sub_self, fetch, List.take_zero]
      rfl
  | succ count induction =>
      have first : (low + 1) * size - low * size = size := by
        rw [Nat.succ_mul]
        omega
      have rest : (low + 1 + count) * size - (low + 1) * size = count * size := by
        rw [Nat.add_mul (low + 1)]
        omega
      have whole : (low + (count + 1)) * size - low * size = size + count * size := by
        rw [Nat.add_mul low, Nat.succ_mul]
        omega
      rw [List.range'_succ, List.map_cons, List.flatten_cons, induction, slice_nat, slice_nat, slice_nat,
        first, rest, whole, Nat.succ_mul, fetch_append]

theorem flat_span_entries {chunk : List (Piece Object)} {size : Nat} {offset : Int}
    {basket : Basket} {span : Span}
    (reads : ∀ entry piece, chunk[entry]? = some piece →
      flatEntry size offset basket entry = .ok piece.raw)
    (inside : span.high ≤ chunk.length) :
    flatSpan size offset basket span =
      .ok ((fetch chunk span.low (span.high - span.low)).map Piece.raw).flatten := by
  have slow : collect (flatEntry size offset basket) span.entries =
      .ok ((fetch chunk span.low (span.high - span.low)).map Piece.raw) :=
    collect_fetch reads (by omega)
  rw [flatSpan]
  split
  case isFalse =>
      rw [slow]
      rfl
  case isTrue fast =>
      -- Where the run is taken at once, the entries are its pieces.
      obtain ⟨bare, rfl, wide⟩ := fast
      have each : ∀ entry, flatEntry size 0 basket entry =
          .ok (slice basket.data (entry * size : Nat) ((entry + 1) * size : Nat)) := by
        intro entry
        simp only [flatEntry, Basket.startOf, bare, wide, if_pos, bind, Except.bind, pure, Except.pure,
          Nat.succ_mul]
        push_cast
        simp
      have same := (collect_each each span.entries).symm.trans slow
      rw [← Except.ok.inj same, Span.entries, slices_flatten]
      by_cases ordered : span.low ≤ span.high
      · rw [Nat.add_sub_cancel' ordered]
      · have empty : span.high * size ≤ span.low * size := Nat.mul_le_mul_right size (by omega)
        rw [show span.high - span.low = 0 by omega, Nat.add_zero, slice_nat, slice_nat, Nat.sub_self,
          Nat.sub_eq_zero_of_le empty]

theorem object_entries {chunk : List (Piece Object)} {offset : Int} {basket : Basket}
    {read : Basket → Memory → Int → Except ReadError (Object × Memory)}
    (reads : ∀ entry piece, chunk[entry]? = some piece →
      @Reads Item Object Memory (.values read) offset basket entry piece)
    {low count : Nat} (within : count = 0 ∨ low + count ≤ chunk.length) (memory : Memory) :
    objectEntries read offset basket memory (List.range' low count) =
      .ok ((fetch chunk low count).filterMap Piece.object?) := by
  induction count generalizing low memory with
  | zero => simp [objectEntries, fetch]
  | succ count induction =>
      have inside : low < chunk.length := by omega
      have here := reads low _ (List.getElem?_eq_getElem inside)
      rw [fetch, List.drop_eq_getElem_cons inside, List.take_succ_cons]
      generalize chunk[low] = piece at here
      cases piece with
      | bytes raw => exact here.elim
      | row count raw => exact here.elim
      | object value =>
          obtain ⟨at_, starts, reading⟩ := here
          obtain ⟨next, given⟩ := reading memory
          rw [List.range'_succ, objectEntries, starts]
          have rest := @induction (low + 1) (by omega) next
          simp only [bind, Except.bind, given, rest]
          rfl

def decoded (itemsize : Nat) (item : Bytes → Item) (piece : Piece Object) : List Item :=
  items itemsize item (piece.raw.length / itemsize) piece.raw

def Column.out (column : Column Item Object Memory) (pieces : List (Piece Object)) :
    Out Item Object :=
  match column with
  | .flat _ itemsize item => .flat (pieces.flatMap (decoded itemsize item))
  | .rows itemsize _ _ item =>
      .jagged (pieces.flatMap (decoded itemsize item)) (rowStarts 0 (pieces.map fun piece => piece.count))
  | .values _ => .list (pieces.filterMap Piece.object?)

theorem items_append {itemsize : Nat} (item : Bytes → Item) {first : Bytes} {count : Nat}
    (sized : first.length = count * itemsize) (second : Bytes) (more : Nat) :
    items itemsize item (count + more) (first ++ second) =
      items itemsize item count first ++ items itemsize item more second := by
  induction count generalizing first with
  | zero =>
      rw [Nat.zero_mul, List.length_eq_zero_iff] at sized
      rw [sized, Nat.zero_add]
      rfl
  | succ count induction =>
      rw [Nat.succ_mul] at sized
      have rest : (first.drop itemsize).length = count * itemsize := by
        rw [List.length_drop]
        omega
      rw [Nat.succ_add, items, items, List.take_append_of_le_length (by omega),
        List.drop_append_of_le_length (by omega), induction rest]
      rfl

theorem decode_pieces {itemsize : Nat} (positive : 0 < itemsize) (item : Bytes → Item)
    {pieces : List (Piece Object)}
    (sized : ∀ piece ∈ pieces, ∃ count, piece.raw.length = count * itemsize) :
    decodeItems itemsize item (pieces.map Piece.raw).flatten =
      .ok (pieces.flatMap (decoded itemsize item)) := by
  have whole : ∃ count, (pieces.map Piece.raw).flatten.length = count * itemsize ∧
      items itemsize item count (pieces.map Piece.raw).flatten =
        pieces.flatMap (decoded itemsize item) := by
    induction pieces with
    | nil => exact ⟨0, by simp, rfl⟩
    | cons piece rest induction =>
        obtain ⟨here, others⟩ := List.forall_mem_cons.mp sized
        obtain ⟨count, length⟩ := here
        obtain ⟨more, total, read⟩ := induction others
        refine ⟨count + more, ?_, ?_⟩
        · rw [List.map_cons, List.flatten_cons, List.length_append, length, total, Nat.add_mul]
        · rw [List.map_cons, List.flatten_cons, items_append item length, read, List.flatMap_cons,
            decoded, length, Nat.mul_div_cancel _ positive]
  obtain ⟨count, length, read⟩ := whole
  rw [decodeItems, length, if_neg (by simp), Nat.mul_div_cancel _ positive, read]

theorem Branch.collect_spans_ok {Value : Type} {branch : Branch Item Object Memory}
    {read : Basket → Span → Except ReadError Value} {value : Span → Value} {spans : List Span}
    (reads : ∀ span ∈ spans, ∃ basket, branch.load span.index = .ok basket ∧
      read basket span = .ok (value span)) {cached : Cache} (right : branch.Right cached) :
    ∃ later, branch.collectSpans read cached spans = .ok (spans.map value, later) ∧
      branch.Right later := by
  induction spans generalizing cached with
  | nil => exact ⟨cached, rfl, right⟩
  | cons span rest induction =>
      obtain ⟨⟨basket, loads, here⟩, others⟩ := List.forall_mem_cons.mp reads
      obtain ⟨next, given, kept⟩ := Branch.basket_load right loads
      obtain ⟨later, further, still⟩ := induction others kept
      refine ⟨later, ?_, still⟩
      rw [Branch.collectSpans, given]
      simp only [bind, Except.bind, here, further]
      rfl

theorem spans_inside {branch : Branch Item Object Memory} {chunks : List (List (Piece Object))}
    (holds : branch.Holds chunks) {start stop : Int} {span : Span}
    (member : span ∈ branch.spans start stop) :
    ∃ chunk, chunks[span.index]? = some chunk ∧ span.high ≤ chunk.length := by
  obtain ⟨index, listed, here⟩ := List.mem_flatMap.mp member
  have within : index < chunks.length := by
    rw [holds.baskets]
    exact List.mem_range.mp listed
  have next := holds.next within
  rw [spanOf] at here
  split at here
  case isTrue => cases here
  case isFalse =>
      rw [List.mem_singleton.mp here]
      refine ⟨chunks.getD index [], ?_, ?_⟩
      · dsimp only
        rw [List.getD_eq_getElem?_getD, List.getElem?_eq_getElem within]
        rfl
      · dsimp only
        omega

theorem cut_pieces {branch : Branch Item Object Memory} {chunks : List (List (Piece Object))}
    (holds : branch.Holds chunks) {piece : Piece Object} (member : piece ∈ chunks.flatten) :
    ∃ basket entry, Reads branch.column branch.offset basket entry piece := by
  obtain ⟨chunk, listed, inside⟩ := List.mem_flatten.mp member
  obtain ⟨index, at_⟩ := List.mem_iff_getElem?.mp listed
  obtain ⟨entry, held⟩ := List.mem_iff_getElem?.mp inside
  obtain ⟨basket, _, reads⟩ := holds.loads index chunk at_
  exact ⟨basket, entry, reads entry piece held⟩

theorem fetch_subset {Value : Type} {content : List Value} {start length : Nat} {value : Value}
    (member : value ∈ fetch content start length) : value ∈ content :=
  List.mem_of_mem_drop (List.mem_of_mem_take member)

def within {Value : Type} (content : List Value) (start : Int) (stop : Option Int) : List Value :=
  fetch content (bounds content.length start stop).1.toNat
    ((bounds content.length start stop).2 - (bounds content.length start stop).1).toNat

theorem bounds_start (total : Nat) (start : Int) (stop : Option Int) :
    ((bounds total start stop).1.toNat : Int) = (bounds total start stop).1 :=
  Int.toNat_of_nonneg (Int.le_max_right _ _)

theorem spans_within {branch : Branch Item Object Memory} {chunks : List (List (Piece Object))}
    (holds : branch.Holds chunks) (start : Int) (stop : Option Int) :
    (branch.spans (bounds branch.entries start stop).1 (bounds branch.entries start stop).2).flatMap
      (Span.cut chunks) = within chunks.flatten start stop := by
  have cut := spans_cut holds (bounds branch.entries start stop).1.toNat
    (bounds branch.entries start stop).2
  rw [bounds_start] at cut
  rw [cut, within, holds.entries]

theorem span_reads {branch : Branch Item Object Memory} {chunks : List (List (Piece Object))}
    (holds : branch.Holds chunks) {start stop : Int} {span : Span}
    (member : span ∈ branch.spans start stop) :
    ∃ chunk basket, branch.load span.index = .ok basket ∧ span.high ≤ chunk.length ∧
      span.cut chunks = fetch chunk span.low (span.high - span.low) ∧
      ∀ entry piece, chunk[entry]? = some piece →
        Reads branch.column branch.offset basket entry piece := by
  obtain ⟨chunk, known, inside⟩ := spans_inside holds member
  obtain ⟨basket, loads, reads⟩ := holds.loads span.index chunk known
  refine ⟨chunk, basket, loads, inside, ?_, reads⟩
  rw [Span.cut, List.getD_eq_getElem?_getD, known]
  rfl

theorem raws_flatten (chunks : List (List (Piece Object))) (spans : List Span) :
    (spans.map fun span => ((span.cut chunks).map Piece.raw).flatten).flatten =
      ((spans.flatMap (Span.cut chunks)).map Piece.raw).flatten := by
  induction spans with
  | nil => rfl
  | cons span rest induction =>
      rw [List.map_cons, List.flatten_cons, induction, List.flatMap_cons, List.map_append,
        List.flatten_append]

theorem whole_pieces {branch : Branch Item Object Memory} {chunks : List (List (Piece Object))}
    (holds : branch.Holds chunks) {itemsize : Nat}
    (sized : ∀ basket entry piece, Reads branch.column branch.offset basket entry piece →
      ∃ count, piece.raw.length = count * itemsize) (start : Int) (stop : Option Int) :
    ∀ piece ∈ within chunks.flatten start stop, ∃ count, piece.raw.length = count * itemsize := by
  intro piece member
  obtain ⟨basket, entry, reads⟩ := cut_pieces holds (fetch_subset member)
  exact sized basket entry piece reads

theorem Branch.array_out [Inhabited Memory] {branch : Branch Item Object Memory}
    {chunks : List (List (Piece Object))} (holds : branch.Holds chunks) {cached : Cache}
    (right : branch.Right cached) (start : Int) (stop : Option Int) :
    ∃ later, branch.array cached start stop =
        .ok (branch.column.out (within chunks.flatten start stop), later) ∧ branch.Right later := by
  have cut := spans_within holds start stop
  have sized := holds.sized
  have reading := fun span member => @span_reads _ _ _ _ _ holds
    (bounds branch.entries start stop).1 (bounds branch.entries start stop).2 span member
  have whole := fun itemsize sized => @whole_pieces _ _ _ _ _ holds itemsize sized start stop
  unfold Branch.array
  dsimp only
  generalize branch.spans (bounds branch.entries start stop).1 (bounds branch.entries start stop).2 =
    spans at *
  cases kind : branch.column with
  | flat length itemsize item =>
      rw [kind] at sized reading whole
      dsimp only
      have each : ∀ span ∈ spans, ∃ basket, branch.load span.index = .ok basket ∧
          flatSpan (length * itemsize) branch.offset basket span =
            .ok ((span.cut chunks).map Piece.raw).flatten := by
        intro span member
        obtain ⟨chunk, basket, loads, inside, same, reads⟩ := reading span member
        refine ⟨basket, loads, ?_⟩
        rw [same]
        apply flat_span_entries _ inside
        intro entry piece held
        have here := reads entry piece held
        cases piece with
        | bytes raw => exact here.1
        | row count raw => exact here.elim
        | object value => exact here.elim
      obtain ⟨later, given, still⟩ := Branch.collect_spans_ok each right
      have decodes := decode_pieces sized.2 item (whole itemsize (by
        intro basket entry piece reads
        cases piece with
        | bytes raw => exact ⟨length, reads.2⟩
        | row count raw => exact reads.elim
        | object value => exact reads.elim))
      refine ⟨later, ?_, still⟩
      rw [given]
      simp only [bind, Except.bind, raws_flatten, cut, decodes]
      rfl
  | rows itemsize header counted item =>
      rw [kind] at sized reading whole
      dsimp only
      have each : ∀ span ∈ spans, ∃ basket, branch.load span.index = .ok basket ∧
          collect (rowEntry itemsize header counted branch.offset basket) span.entries =
            .ok ((span.cut chunks).map fun piece => ((piece.count : Int), piece.raw)) := by
        intro span member
        obtain ⟨chunk, basket, loads, inside, same, reads⟩ := reading span member
        refine ⟨basket, loads, ?_⟩
        rw [same]
        apply collect_fetch _ (by omega)
        intro entry piece held
        have here := reads entry piece held
        cases piece with
        | bytes raw => exact here.elim
        | row count raw => exact here.1
        | object value => exact here.elim
      obtain ⟨later, given, still⟩ := Branch.collect_spans_ok each right
      have decodes := decode_pieces sized item (whole itemsize (by
        intro basket entry piece reads
        cases piece with
        | bytes raw => exact reads.elim
        | row count raw => exact ⟨count, reads.2⟩
        | object value => exact reads.elim))
      have rows : (spans.map fun span =>
          (span.cut chunks).map fun piece => ((piece.count : Int), piece.raw)).flatten =
          (within chunks.flatten start stop).map fun piece => ((piece.count : Int), piece.raw) := by
        rw [← cut, ← List.flatMap_def, List.map_flatMap]
      refine ⟨later, ?_, still⟩
      rw [given]
      simp only [bind, Except.bind, rows, List.map_map]
      rw [show (Prod.snd ∘ fun piece : Piece Object => ((piece.count : Int), piece.raw)) = Piece.raw from rfl,
        decodes]
      rfl
  | values read =>
      rw [kind] at reading
      dsimp only
      have each : ∀ span ∈ spans, ∃ basket, branch.load span.index = .ok basket ∧
          objectEntries read branch.offset basket default span.entries =
            .ok ((span.cut chunks).filterMap Piece.object?) := by
        intro span member
        obtain ⟨chunk, basket, loads, inside, same, reads⟩ := reading span member
        refine ⟨basket, loads, ?_⟩
        rw [same]
        exact object_entries reads (by omega) default
      obtain ⟨later, given, still⟩ := Branch.collect_spans_ok each right
      have objects : (spans.map fun span => (span.cut chunks).filterMap Piece.object?).flatten =
          (within chunks.flatten start stop).filterMap Piece.object? := by
        rw [← cut, ← List.flatMap_def, List.filterMap_flatMap]
      refine ⟨later, ?_, still⟩
      rw [given]
      simp only [bind, Except.bind, objects]
      rfl

end Reading

end XRootDClient.Root.Branches

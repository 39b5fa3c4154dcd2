import Mathlib.Data.List.Induction
import XRootDClient.Lib.Dict
import XRootDClient.Lib.Stateful
import XRootDClient.Root.Records

/-!
# Rows of a tree being written

A row is packed for every column before any of it is kept, then every column keeps its
part, and the columns that have gathered a basket write it. Columns are of different
widths, so their baskets end at different rows; what a column has written and what it
still holds always come to the number of rows taken.
-/

set_option autoImplicit false

namespace XRootDClient.Root.Rows

open Lib Lib.BigEndian Compression

inductive Value
  | none
  | bool (value : Bool)
  | int (value : Int)
  | float (bits : UInt64)
  | text (value : Text)
  | bytes (value : Bytes)
  | list (items : List Value)
  /-- An iterable that raises when it is gone through. -/
  | raising (message : String)

def Value.scalar : Value → Struct.Scalar
  | .none => .other false
  | .bool value => .int value.toNat
  | .int value => .int value
  | .float bits => .float bits
  | .text value => .other !value.isEmpty
  | .bytes value => .other !value.isEmpty
  | .list items => .other !items.isEmpty
  | .raising _ => .other true

inductive TypeCode
  | bool
  | int8
  | uint8
  | int16
  | uint16
  | int32
  | uint32
  | int64
  | uint64
  | single
  | double
  deriving DecidableEq

/-- A letter, where `PLATFORM` has longs of eight bytes or of four. -/
def TypeCode.ofLetter (wide : Bool) (letter : Text) : Option TypeCode :=
  if letter = str "?" then some .bool
  else if letter = str "b" then some .int8
  else if letter = str "B" then some .uint8
  else if letter = str "h" then some .int16
  else if letter = str "H" then some .uint16
  else if letter = str "i" then some .int32
  else if letter = str "I" then some .uint32
  else if letter = str "q" then some .int64
  else if letter = str "Q" then some .uint64
  else if letter = str "l" then some (if wide then .int64 else .int32)
  else if letter = str "L" then some (if wide then .uint64 else .uint32)
  else if letter = str "f" then some .single
  else if letter = str "d" then some .double
  else none

def TypeCode.code : TypeCode → Struct.Code
  | .bool => .truth
  | .int8 => .whole 1 true
  | .uint8 => .whole 1 false
  | .int16 => .whole 2 true
  | .uint16 => .whole 2 false
  | .int32 => .whole 4 true
  | .uint32 => .whole 4 false
  | .int64 => .whole 8 true
  | .uint64 => .whole 8 false
  | .single => .single
  | .double => .double

def TypeCode.itemsize (typecode : TypeCode) : Nat := typecode.code.width

def TypeCode.classname : TypeCode → Text
  | .bool => str "TLeafO"
  | .int8 | .uint8 => str "TLeafB"
  | .int16 | .uint16 => str "TLeafS"
  | .int32 | .uint32 => str "TLeafI"
  | .int64 | .uint64 => str "TLeafL"
  | .single => str "TLeafF"
  | .double => str "TLeafD"

inductive Plain
  | letter (letter : Text)
  | bool
  | int
  | float
  | type
  | other

inductive Spec
  | plain (spec : Plain)
  | pair (spec : Plain) (length : Value)
  | tuple (count : Nat)

inductive TreeError
  | notMapping
  | noColumns
  | basketSize
  /-- `_checked`: not a `str`, or too long for its length byte. -/
  | unchecked (what : Text)
  | columnName (name : Text)
  | tuple (name : Text) (count : Nat)
  | perEntry (name : Text)
  | typeName (name : Text)
  | neither (name : Text)
  | letter (name letter : Text)

def checked (text : Option Text) (what : Text) : Except TreeError Text :=
  match text with
  | none => .error (.unchecked what)
  | some text => if text.encodeUtf8.length > 254 then .error (.unchecked what) else .ok text

def plainCode (wide : Bool) (name : Text) : Plain → Except TreeError TypeCode
  | .letter letter =>
      match TypeCode.ofLetter wide letter with
      | none => .error (.letter name letter)
      | some typecode => .ok typecode
  | .bool => .ok .bool
  | .int => .ok .int64
  | .float => .ok .double
  | .type => .error (.typeName name)
  | .other => .error (.neither name)

/-- `_typecode`: the type of a column, and its values per entry. -/
def typecode (wide : Bool) (name : Text) : Spec → Except TreeError (TypeCode × Nat)
  | .plain spec => do
      let found ← plainCode wide name spec
      return (found, 1)
  | .pair spec length =>
      match length with
      | .int count =>
          if count < 1 then .error (.perEntry name)
          else do
            let found ← plainCode wide name spec
            return (found, count.toNat)
      | _ => .error (.perEntry name)
  | .tuple count => .error (.tuple name count)

structure Column where
  name : Text
  typecode : TypeCode
  length : Nat
  basketSize : Nat
  buffer : Bytes := []
  pending : Nat := 0
  seeks : List Nat := []
  sizes : List Nat := []
  starts : List Nat := [0]
  totBytes : Nat := 0
  zipBytes : Nat := 0

def Column.size (column : Column) : Nat := column.length * column.typecode.itemsize

structure Tree where
  name : Text
  title : Text
  cycle : Int
  entries : Nat
  columns : List Column

def forbidden : Text := str "./;[] "

def declare_ (wide : Bool) (basketSize : Nat) :
    List (Option Text × Spec) → Except TreeError (List Column)
  | [] => .ok []
  | (column, spec) :: rest => do
      let name ← checked column (str "column name")
      if name = [] ∨ ∃ bad ∈ forbidden, bad ∈ name then .error (.columnName name)
      else do
        let (typecode, length) ← typecode wide name spec
        let columns ← declare_ wide basketSize rest
        return { name, typecode, length, basketSize } :: columns

/-- `isinstance(basket_size, int) and basket_size >= 1`, and then its value. -/
def basketBytes : Value → Option Nat
  | .int size => if size < 1 then none else some size.toNat
  | .bool size => if size then some 1 else none
  | _ => none

/-- `WritableTree.__init__`. Columns that are not a mapping are `none`. -/
def Tree.create (wide : Bool) (name title : Text) (columns : Option (List (Option Text × Spec)))
    (basketSize : Value) (cycle : Int) : Except TreeError Tree :=
  match columns with
  | none => .error .notMapping
  | some [] => .error .noColumns
  | some columns =>
      match basketBytes basketSize with
      | none => .error .basketSize
      | some size => do
          let columns ← declare_ wide size columns
          return { name, title, cycle, entries := 0, columns }

inductive RowError
  | closed (tree : Text) (entries : Nat)
  | mismatch (tree : Text) (missing unknown : List Text)
  | byteCount (column : Text) (length given : Nat)
  | notSequence (column : Text) (length : Nat)
  | valueCount (column : Text) (length given : Nat)
  | notOne (column : Text) (typecode : TypeCode)
  /-- What `struct.pack` raises itself for a float that is too large. -/
  | overflowError
  /-- What the row or one of its values raises when it is looked at. -/
  | raised (message : String)

inductive Raised
  | refused (error : RowError)
  | unwritten (error : WriteError)

/-- `list(value)`; nothing for what cannot be gone through. -/
def Value.items : Value → Option (Except RowError (List Value))
  | .text value => some (.ok (value.map fun char => .text [char]))
  | .bytes value => some (.ok (value.map fun byte => .int byte.toNat))
  | .list items => some (.ok items)
  | .raising message => some (.error (.raised message))
  | .none | .bool _ | .int _ | .float _ => Option.none

def Column.packValues (column : Column) (values : List Value) : Except RowError Bytes :=
  match Struct.packAll column.typecode.code (values.map Value.scalar) with
  | .ok raw => .ok raw
  | .error .structError => .error (.notOne column.name column.typecode)
  | .error .overflowError => .error .overflowError

def Column.packItems (column : Column) (value : Value) : Except RowError Bytes :=
  match value.items with
  | none => .error (.notSequence column.name column.length)
  | some (.error error) => .error error
  | some (.ok values) =>
      if values.length ≠ column.length then
        .error (.valueCount column.name column.length values.length)
      else column.packValues values

def Column.pack (column : Column) (value : Value) : Except RowError Bytes :=
  if column.length = 1 then column.packValues [value]
  else
    match column.typecode, value with
    | .uint8, .bytes raw =>
        if raw.length ≠ column.length then
          .error (.byteCount column.name column.length raw.length)
        else .ok raw
    | _, value => column.packItems value

inductive Row
  | mapping (values : Dict Text Value)
  | other (message : String)

def packRow (values : Dict Text Value) : List Column → Except RowError (List Bytes)
  | [] => .ok []
  | column :: rest => do
      let raw ← column.pack ((values.get? column.name).getD .none)
      let raws ← packRow values rest
      return raw :: raws

def Column.push (column : Column) (raw : Bytes) : Column :=
  { column with buffer := column.buffer ++ raw, pending := column.pending + 1 }

def basketKey (column : Column) (keylen : Nat) : Except WriteError Bytes := do
  let version ← WBuffer.i16 3
  let basketSize ← WBuffer.i32 column.basketSize
  let nevBufSize ← WBuffer.i32 column.size
  let nevBuf ← WBuffer.i32 column.pending
  let last ← WBuffer.i32 (keylen + column.buffer.length : Nat)
  let offsets ← WBuffer.u8 0
  return version ++ basketSize ++ nevBufSize ++ nevBuf ++ last ++ offsets

def flush (codecs : Codecs) (tree : Text) (records : Records) (column : Column) :
    Except WriteError (Records × Column) :=
  if column.pending = 0 then .ok (records, column)
  else do
    let keylen := keylen (str "TBasket") column.name tree 19
    let extra ← basketKey column keylen
    let (records, seek, nbytes) ← records.put codecs
      { classname := str "TBasket", name := column.name, title := tree, payload := column.buffer,
        cycle := 0, listed := false, extra }
    return (records, { column with
      seeks := column.seeks ++ [seek]
      sizes := column.sizes ++ [nbytes]
      starts := column.starts ++ [column.starts.getLastD 0 + column.pending]
      totBytes := column.totBytes + (keylen + column.buffer.length)
      zipBytes := column.zipBytes + nbytes
      buffer := []
      pending := 0 })

def flushDue (codecs : Codecs) (tree : Text) :
    Records → List Column → Records × List Column × Option WriteError
  | records, [] => (records, [], none)
  | records, column :: rest =>
      if column.basketSize ≤ column.buffer.length then
        match flush codecs tree records column with
        | .error raised => (records, column :: rest, some raised)
        | .ok (records, flushed) =>
            let (records, others, raised) := flushDue codecs tree records rest
            (records, flushed :: others, raised)
      else
        let (records, others, raised) := flushDue codecs tree records rest
        (records, column :: others, raised)

structure State where
  closed : Bool
  records : Records
  tree : Tree

/-- A row that passes: every column keeps its part, then the baskets are written. -/
def keep (codecs : Codecs) (state : State) (raws : List Bytes) : State × Option Raised :=
  let tree := state.tree
  let columns := List.zipWith Column.push tree.columns raws
  let (records, columns, raised) := flushDue codecs tree.name state.records columns
  ({ state with records, tree := { tree with entries := tree.entries + 1, columns } },
    raised.map .unwritten)

def row (codecs : Codecs) (state : State) (given : Row) : State × Option Raised :=
  let tree := state.tree
  if state.closed then (state, some (.refused (.closed tree.name tree.entries)))
  else
    match given with
    | .other message => (state, some (.refused (.raised message)))
    | .mapping values =>
        let missing := (tree.columns.map Column.name).filter fun name => name ∉ values.keys
        let unknown := values.keys.filter fun name => name ∉ tree.columns.map Column.name
        if missing ≠ [] ∨ unknown ≠ [] then
          (state, some (.refused (.mismatch tree.name missing unknown)))
        else
          match packRow values tree.columns with
          | .error error => (state, some (.refused error))
          | .ok raws => keep codecs state raws

structure Attempt where
  before : State
  given : Row
  after : State
  raised : Option Raised

/-- Rows up to the first that raises: what was tried, the state and what was raised. -/
def rows (codecs : Codecs) : State → List Row → List Attempt × State × Option Raised
  | state, [] => ([], state, none)
  | state, given :: rest =>
      let (after, raised) := row codecs state given
      let attempt : Attempt := { before := state, given, after, raised }
      match raised with
      | some raised => ([attempt], after, some raised)
      | none =>
          let (attempts, last, raised) := rows codecs after rest
          (attempt :: attempts, last, raised)

inductive Call
  | fill (values : Dict Text Value)
  /-- `extend`: the rows that come, and how the iterable ends. -/
  | extend (given : List Row) (ends : Option String)

def call (codecs : Codecs) (state : State) : Call → List Attempt × State × Option Raised
  | .fill values => rows codecs state [.mapping values]
  | .extend given ends =>
      let (attempts, after, raised) := rows codecs state given
      (attempts, after, raised <|> ends.map fun message => .refused (.raised message))

/-- Calls one after another, whatever they raise: the rows tried and the states reached. -/
def calls (codecs : Codecs) : State → List Call → List Attempt × List State
  | _, [] => ([], [])
  | state, first :: rest =>
      let (attempts, after, _) := call codecs state first
      let (others, states) := calls codecs after rest
      (attempts ++ others, after :: states)

structure Column.Whole (entries : Nat) (column : Column) : Prop where
  started : column.starts ≠ []
  counted : column.starts.getLastD 0 + column.pending = entries
  sized : column.buffer.length = column.pending * column.size
  rising : column.starts.Pairwise (· < ·)

def Tree.Whole (tree : Tree) : Prop := ∀ column ∈ tree.columns, column.Whole tree.entries

theorem pack_values_length {column : Column} {values : List Value} {raw : Bytes}
    (packed : column.packValues values = .ok raw) :
    raw.length = values.length * column.typecode.itemsize := by
  rw [Column.packValues] at packed
  split at packed
  case h_1 raw fields =>
      cases packed
      rw [Struct.pack_all_length fields, List.length_map]
      rfl
  case h_2 => cases packed
  case h_3 => cases packed

theorem pack_items_length {column : Column} {value : Value} {raw : Bytes}
    (packed : column.packItems value = .ok raw) : raw.length = column.size := by
  rw [Column.packItems] at packed
  split at packed
  case h_1 => cases packed
  case h_2 => cases packed
  case h_3 values listed =>
      split at packed
      case isTrue => cases packed
      case isFalse count =>
          rw [pack_values_length packed, Decidable.not_not.mp count, Column.size]

theorem pack_length {column : Column} {value : Value} {raw : Bytes}
    (packed : column.pack value = .ok raw) : raw.length = column.size := by
  unfold Column.pack at packed
  split at packed
  case isTrue one => rw [pack_values_length packed, Column.size, one, List.length_singleton]
  case isFalse many =>
      split at packed
      case h_1 raw code =>
          split at packed
          case isTrue => cases packed
          case isFalse count =>
              cases packed
              rw [Decidable.not_not.mp count, Column.size, code]
              exact (Nat.mul_one _).symm
      case h_2 => exact pack_items_length packed

theorem Column.Whole.push {column : Column} {entries : Nat} (whole : column.Whole entries)
    {raw : Bytes} (sized : raw.length = column.size) : (column.push raw).Whole (entries + 1) where
  started := whole.started
  counted := by
    have counted := whole.counted
    simp only [Column.push]
    omega
  sized := by
    have same : (column.push raw).size = column.size := rfl
    rw [same]
    simp only [Column.push, List.length_append, whole.sized, sized, Nat.succ_mul]
  rising := whole.rising

theorem rising_le_last {starts : List Nat} (rising : starts.Pairwise (· < ·)) {start : Nat}
    (member : start ∈ starts) : start ≤ starts.getLastD 0 := by
  rcases List.eq_nil_or_concat starts with rfl | ⟨init, last, rfl⟩
  · cases member
  · rw [List.concat_eq_append] at member rising ⊢
    rw [List.getLastD_concat]
    rcases List.mem_append.mp member with earlier | here
    · exact Nat.le_of_lt ((List.pairwise_append.mp rising).2.2 start earlier last
        (List.mem_singleton.mpr rfl))
    · exact Nat.le_of_eq (List.mem_singleton.mp here)

theorem Column.Whole.flush {codecs : Codecs} {tree : Text} {records later : Records}
    {column flushed : Column} {entries : Nat} (whole : column.Whole entries)
    (written : Rows.flush codecs tree records column = .ok (later, flushed)) :
    flushed.Whole entries := by
  rw [Rows.flush] at written
  split at written
  case isTrue =>
      cases written
      exact whole
  case isFalse some =>
      obtain ⟨extra, _, written⟩ := Stateful.except_returns written
      obtain ⟨⟨after, seek, nbytes⟩, _, written⟩ := Stateful.except_returns written
      cases written
      refine ⟨?_, ?_, ?_, ?_⟩
      · exact List.append_ne_nil_of_right_ne_nil _ (List.cons_ne_nil _ _)
      · rw [List.getLastD_concat]
        exact whole.counted
      · simp
      · refine List.pairwise_append.mpr ⟨whole.rising, List.pairwise_singleton _ _, ?_⟩
        intro start member last listed
        rw [List.mem_singleton.mp listed]
        have below := rising_le_last whole.rising member
        omega

theorem flush_due_whole {codecs : Codecs} {tree : Text} {entries : Nat} {columns : List Column}
    (whole : ∀ column ∈ columns, column.Whole entries) (records : Records) :
    ∀ column ∈ (flushDue codecs tree records columns).2.1, column.Whole entries := by
  induction columns generalizing records with
  | nil => exact whole
  | cons column rest induction =>
      obtain ⟨here, others⟩ := List.forall_mem_cons.mp whole
      rw [flushDue]
      split
      case isTrue due =>
          split
          case h_1 => exact whole
          case h_2 later flushed written =>
              exact List.forall_mem_cons.mpr ⟨here.flush written, induction others later⟩
      case isFalse => exact List.forall_mem_cons.mpr ⟨here, induction others records⟩

theorem push_whole {values : Dict Text Value} {columns : List Column} {raws : List Bytes}
    {entries : Nat} (whole : ∀ column ∈ columns, column.Whole entries)
    (packed : packRow values columns = .ok raws) :
    ∀ column ∈ List.zipWith Column.push columns raws, column.Whole (entries + 1) := by
  induction columns generalizing raws with
  | nil =>
      cases packed
      simp
  | cons column rest induction =>
      obtain ⟨here, others⟩ := List.forall_mem_cons.mp whole
      obtain ⟨raw, first, packed⟩ := Stateful.except_returns packed
      obtain ⟨more, further, packed⟩ := Stateful.except_returns packed
      cases packed
      exact List.forall_mem_cons.mpr ⟨here.push (pack_length first), induction others further⟩

theorem row_cases (codecs : Codecs) (state : State) (given : Row) :
    (∃ error, row codecs state given = (state, some (.refused error))) ∨
      ∃ values raws, packRow values state.tree.columns = .ok raws ∧
        row codecs state given = keep codecs state raws := by
  unfold row
  split
  case isTrue => exact .inl ⟨_, rfl⟩
  case isFalse =>
      cases given with
      | other message => exact .inl ⟨_, rfl⟩
      | mapping values =>
          dsimp only
          split
          case isTrue => exact .inl ⟨_, rfl⟩
          case isFalse =>
              split
              case h_1 => exact .inl ⟨_, rfl⟩
              case h_2 raws packed => exact .inr ⟨values, raws, packed, rfl⟩

structure Attempt.Sound (attempt : Attempt) : Prop where
  refused : ∀ error, attempt.raised = some (.refused error) → attempt.after = attempt.before
  taken : attempt.raised = none →
    attempt.after.tree.entries = attempt.before.tree.entries + 1

theorem keep_whole {codecs : Codecs} {state : State} {values : Dict Text Value} {raws : List Bytes}
    (whole : state.tree.Whole) (packed : packRow values state.tree.columns = .ok raws) :
    (keep codecs state raws).1.tree.Whole :=
  flush_due_whole (push_whole whole packed) state.records

theorem row_sound (codecs : Codecs) (state : State) (given : Row) :
    Attempt.Sound ⟨state, given, (row codecs state given).1, (row codecs state given).2⟩ := by
  rcases row_cases codecs state given with ⟨error, same⟩ | ⟨values, raws, packed, kept⟩
  · rw [same]
    refine ⟨fun _ _ => rfl, ?_⟩
    intro none
    cases none
  · rw [kept]
    refine ⟨?_, fun _ => rfl⟩
    intro error refused
    simp only [keep, Option.map_eq_some_iff] at refused
    obtain ⟨raised, _, other⟩ := refused
    cases other

theorem row_whole {codecs : Codecs} {state : State} (whole : state.tree.Whole) (given : Row) :
    (row codecs state given).1.tree.Whole := by
  rcases row_cases codecs state given with ⟨error, same⟩ | ⟨values, raws, packed, kept⟩
  · rw [same]
    exact whole
  · rw [kept]
    exact keep_whole whole packed

def attempt (codecs : Codecs) (state : State) (given : Row) : Attempt :=
  ⟨state, given, (row codecs state given).1, (row codecs state given).2⟩

theorem rows_raised {codecs : Codecs} {state : State} {first : Row} {raised : Raised}
    (ended : (row codecs state first).2 = some raised) (rest : List Row) :
    rows codecs state (first :: rest) =
      ([attempt codecs state first], (row codecs state first).1, some raised) := by
  simp only [rows, ended, attempt]

theorem rows_taken {codecs : Codecs} {state : State} {first : Row}
    (taken : (row codecs state first).2 = none) (rest : List Row) :
    rows codecs state (first :: rest) =
      (attempt codecs state first :: (rows codecs (row codecs state first).1 rest).1,
        (rows codecs (row codecs state first).1 rest).2) := by
  simp only [rows, taken, attempt]

theorem rows_sound (codecs : Codecs) (state : State) (given : List Row) :
    ∀ attempt ∈ (rows codecs state given).1, attempt.Sound := by
  induction given generalizing state with
  | nil => simp [rows]
  | cons first rest induction =>
      have here : (attempt codecs state first).Sound := row_sound codecs state first
      cases ended : (row codecs state first).2 with
      | some raised =>
          rw [rows_raised ended]
          exact List.forall_mem_singleton.mpr here
      | none =>
          rw [rows_taken ended]
          exact List.forall_mem_cons.mpr ⟨here, induction _⟩

theorem rows_whole {codecs : Codecs} {state : State} (whole : state.tree.Whole) (given : List Row) :
    (rows codecs state given).2.1.tree.Whole := by
  induction given generalizing state with
  | nil => exact whole
  | cons first rest induction =>
      have here : (row codecs state first).1.tree.Whole := row_whole whole first
      cases ended : (row codecs state first).2 with
      | some raised =>
          rw [rows_raised ended]
          exact here
      | none =>
          rw [rows_taken ended]
          exact induction here

theorem call_sound (codecs : Codecs) (state : State) (made : Call) :
    ∀ attempt ∈ (call codecs state made).1, attempt.Sound := by
  cases made with
  | fill values => exact rows_sound codecs state _
  | extend given ends => exact rows_sound codecs state given

theorem call_whole {codecs : Codecs} {state : State} (whole : state.tree.Whole) (made : Call) :
    (call codecs state made).2.1.tree.Whole := by
  cases made with
  | fill values => exact rows_whole whole _
  | extend given ends => exact rows_whole whole given

theorem calls_sound (codecs : Codecs) (state : State) (made : List Call) :
    ∀ attempt ∈ (calls codecs state made).1, attempt.Sound := by
  induction made generalizing state with
  | nil => simp [calls]
  | cons first rest induction =>
      exact List.forall_mem_append.mpr ⟨call_sound codecs state first, induction _⟩

theorem calls_whole {codecs : Codecs} {state : State} (whole : state.tree.Whole) (made : List Call) :
    ∀ reached ∈ (calls codecs state made).2, reached.tree.Whole := by
  induction made generalizing state with
  | nil => simp [calls]
  | cons first rest induction =>
      have here := @call_whole codecs state whole first
      exact List.forall_mem_cons.mpr ⟨here, induction here⟩

theorem declare_fresh {wide : Bool} {size : Nat} {given : List (Option Text × Spec)}
    {columns : List Column} (declared : declare_ wide size given = .ok columns) :
    ∀ column ∈ columns, column.Whole 0 := by
  induction given generalizing columns with
  | nil =>
      cases declared
      simp
  | cons first rest induction =>
      obtain ⟨name, _, declared⟩ := Stateful.except_returns declared
      split at declared
      case isTrue => cases declared
      case isFalse =>
          obtain ⟨⟨typecode, length⟩, _, declared⟩ := Stateful.except_returns declared
          obtain ⟨others, further, declared⟩ := Stateful.except_returns declared
          cases declared
          refine List.forall_mem_cons.mpr ⟨⟨List.cons_ne_nil _ _, rfl, ?_, ?_⟩, induction further⟩
          · simp
          · exact List.pairwise_singleton _ _

theorem create_whole {wide : Bool} {name title : Text}
    {given : Option (List (Option Text × Spec))} {basketSize : Value} {cycle : Int} {tree : Tree}
    (created : Tree.create wide name title given basketSize cycle = .ok tree) : tree.Whole := by
  unfold Tree.create at created
  split at created
  case h_1 => cases created
  case h_2 => cases created
  case h_3 =>
      split at created
      case h_1 => cases created
      case h_2 =>
          obtain ⟨columns, declared, created⟩ := Stateful.except_returns created
          cases created
          exact declare_fresh declared

/-- In every run of `fill` and `extend` on a tree, a row that is refused changes nothing, a
row that is taken counts once, and after every call each column accounts for every row. -/
theorem rows_taken_whole (codecs : Codecs) (wide : Bool) (name title : Text)
    (given : Option (List (Option Text × Spec))) (basketSize : Value) (cycle : Int) (tree : Tree)
    (created : Tree.create wide name title given basketSize cycle = .ok tree) (closed : Bool)
    (records : Records) (made : List Call) :
    (∀ attempt ∈ (calls codecs ⟨closed, records, tree⟩ made).1, attempt.Sound) ∧
      ∀ reached ∈ (calls codecs ⟨closed, records, tree⟩ made).2, reached.tree.Whole :=
  ⟨calls_sound codecs _ made, calls_whole (create_whole created) made⟩

/-- A tree of one column of integers, declared with baskets of sixteen bytes. -/
def counts : Tree :=
  { name := str "t", title := [], cycle := 1, entries := 0,
    columns := [{ name := str "n", typecode := .int64, length := 1, basketSize := 16 }] }

def noRecords : Records := { algorithm := none, level := none, datime := 0, data := [], keys := [] }

def threeRows : List Call :=
  [.fill (Dict.empty.set (str "n") (.int 7)), .fill (Dict.empty.set (str "n") (.text (str "x"))),
    .fill (Dict.empty.set (str "n") (.int 8))]

theorem three_rows_whole :
    (calls rootCodecs ⟨false, noRecords, counts⟩ threeRows).1.map (·.raised.isSome) =
        [false, true, false] ∧
      (calls rootCodecs ⟨false, noRecords, counts⟩ threeRows).2.map (·.tree.entries) = [1, 1, 2] ∧
      ∀ reached ∈ (calls rootCodecs ⟨false, noRecords, counts⟩ threeRows).2, reached.tree.Whole :=
  ⟨by rfl, by rfl, (rows_taken_whole rootCodecs true (str "t") []
    (some [(some (str "n"), .plain .int)]) (.int 16) 1 counts (by rfl) false noRecords threeRows).2⟩

end XRootDClient.Root.Rows

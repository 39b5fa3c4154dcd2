import XRootDClient.Lib.BigEndian
import XRootDClient.Lib.Dict
import XRootDClient.Lib.Extent
import XRootDClient.Lib.Stateful

/-!
# The cursor over a record

`Buffer` reads one field at a time. A record may start with a byte count, and the
cursor then goes to where that says the record ends. Lengths and counts come from
the record itself as signed numbers. A negative one passes the check for what is
left and moves the cursor back; a byte count is not checked at all.

A program is any sequence of the operations with operands taken from what was read
before; the methods made of several operations are programs too.
-/

set_option autoImplicit false

namespace XRootDClient.Root

open Lib Lib.BigEndian Lib.Extent

inductive BufferError
  | format
  | other
  deriving DecidableEq

structure Buffer (Item : Type) where
  data : Bytes
  offset : Int
  pos : Int
  refs : Dict Int Item := ∅

def Buffer.limit {Item : Type} (buffer : Buffer Item) : Int :=
  buffer.offset + buffer.data.length

def clamp (length : Nat) (index : Int) : Nat :=
  if index < 0 then (index + length).toNat else min index.toNat length

/-- `data[start:stop]`. -/
def slice (data : Bytes) (start stop : Int) : Bytes :=
  fetch data (clamp data.length start) (clamp data.length stop - clamp data.length start)

/-- A fixed-width number: how wide it is, and whether it has a sign. -/
structure Form where
  size : Nat
  signed : Bool
  deriving DecidableEq

def Form.value (form : Form) (field : Bytes) : Int :=
  if form.signed then BigEndian.signed form.size (decode field) else decode field

/-- `struct.unpack_from`, the bytes of it. A place before the first is counted from the
end. -/
def unpackFrom (data : Bytes) (index : Int) (size : Nat) : Except BufferError Bytes :=
  if index < 0 then
    if index + data.length < 0 ∨ index + size > 0 then .error .other
    else .ok (fetch data (index + data.length).toNat size)
  else if index + size > data.length then .error .other
  else .ok (fetch data index.toNat size)

inductive Op
  | read (form : Form)
  | take (count : Int)
  | cstring
  | header
  | resume (to_ : Int)
  | array (form : Form) (count : Int)

def Op.Result : Op → Type
  | .read _ => Int
  | .take _ => Bytes
  | .cstring => Bytes
  | .header => Int × Option Int
  | .resume _ => Unit
  | .array _ _ => List Int

section Perform

variable {Item : Type}

/-- `Buffer._take`. -/
def Buffer.read (form : Form) (buffer : Buffer Item) : Except BufferError (Int × Buffer Item) := do
  let index := buffer.pos - buffer.offset
  if index + form.size > buffer.data.length then throw .format
  let field ← unpackFrom buffer.data index form.size
  return (form.value field, { buffer with pos := buffer.pos + form.size })

def Buffer.take (count : Int) (buffer : Buffer Item) : Except BufferError (Bytes × Buffer Item) :=
  let index := buffer.pos - buffer.offset
  if index + count > buffer.data.length then .error .format
  else .ok (slice buffer.data index (index + count), { buffer with pos := buffer.pos + count })

def Buffer.cstring (buffer : Buffer Item) : Except BufferError (Bytes × Buffer Item) :=
  let index := buffer.pos - buffer.offset
  let from_ : Nat :=
    if index < 0 then (index + buffer.data.length).toNat else index.toNat
  match (buffer.data.drop from_).findIdx? (· = 0) with
  | none => .error .format
  | some found =>
      .ok (slice buffer.data index (from_ + found : Nat),
        { buffer with pos := buffer.pos + ((from_ + found : Nat) - index + 1) })

def byteCount : Nat := 2 ^ 30

/-- `Buffer.header`: the version of a record, and where it says it ends. -/
def Buffer.header (buffer : Buffer Item) :
    Except BufferError ((Int × Option Int) × Buffer Item) := do
  let (count, counted) ← buffer.read ⟨4, false⟩
  if count.toNat.testBit 30 then
    let (version, after) ← counted.read ⟨2, false⟩
    return ((version, some (counted.pos + (count - byteCount))), after)
  else
    let (version, after) ← buffer.read ⟨2, false⟩
    return ((version, none), after)

/-- `Buffer.i32s` and `Buffer.i64s`. The place is taken before the count is looked at. -/
def Buffer.array (form : Form) (count : Int) (buffer : Buffer Item) :
    Except BufferError (List Int × Buffer Item) := do
  let index := buffer.pos - buffer.offset
  if index + count * form.size > buffer.data.length then throw .format
  if count < 0 then throw .other
  let field ← unpackFrom buffer.data index (count.toNat * form.size)
  return ((List.range count.toNat).map fun at_ =>
      form.value (fetch field (at_ * form.size) form.size),
    { buffer with pos := buffer.pos + count * form.size })

def Op.perform : (op : Op) → Buffer Item → Except BufferError (op.Result × Buffer Item)
  | .read form, buffer => buffer.read form
  | .take count, buffer => buffer.take count
  | .cstring, buffer => buffer.cstring
  | .header, buffer => buffer.header
  | .resume to_, buffer => .ok ((), { buffer with pos := to_ })
  | .array form count, buffer => buffer.array form count

end Perform

/-- Operations one after another, each with what was read before it. Where the cursor is,
and what has been read at a place, may be asked. -/
inductive Program (Item : Type) : Type → Type 1
  | done {Value : Type} (value : Value) : Program Item Value
  | fail {Value : Type} : Program Item Value
  | op {Value : Type} (op : Op) (next : op.Result → Program Item Value) : Program Item Value
  | here {Value : Type} (next : Int → Program Item Value) : Program Item Value
  | recollect {Value : Type} (place : Int) (next : Option Item → Program Item Value) :
      Program Item Value
  | remember {Value : Type} (place : Int) (item : Item) (next : Program Item Value) :
      Program Item Value

namespace Program

variable {Item Value Other : Type}

def bind : Program Item Value → (Value → Program Item Other) → Program Item Other
  | done value, rest => rest value
  | fail, _ => fail
  | op act next, rest => op act fun result => (next result).bind rest
  | here next, rest => here fun pos => (next pos).bind rest
  | recollect place next, rest => recollect place fun item => (next item).bind rest
  | remember place item next, rest => remember place item (next.bind rest)

instance : Monad (Program Item) where
  pure := done
  bind := bind

def run : Program Item Value → Buffer Item → Except BufferError (Value × Buffer Item)
  | done value, buffer => .ok (value, buffer)
  | fail, _ => .error .format
  | op act next, buffer =>
      match act.perform buffer with
      | .error error => .error error
      | .ok (result, after) => (next result).run after
  | here next, buffer => (next buffer.pos).run buffer
  | recollect place next, buffer => (next (buffer.refs.get? place)).run buffer
  | remember place item next, buffer =>
      next.run { buffer with refs := buffer.refs.set place item }

structure Step (Item : Type) where
  act : Op
  before : Buffer Item

def steps : Program Item Value → Buffer Item → List (Step Item)
  | done _, _ => []
  | fail, _ => []
  | op act next, buffer =>
      ⟨act, buffer⟩ ::
        match act.perform buffer with
        | .error _ => []
        | .ok (result, after) => (next result).steps after
  | here next, buffer => (next buffer.pos).steps buffer
  | recollect place next, buffer => (next (buffer.refs.get? place)).steps buffer
  | remember place item next, buffer =>
      next.steps { buffer with refs := buffer.refs.set place item }

end Program

section Methods

variable {Item : Type}

def u8 : Program Item Int := .op (.read ⟨1, false⟩) .done

def u16 : Program Item Int := .op (.read ⟨2, false⟩) .done

def u32 : Program Item Int := .op (.read ⟨4, false⟩) .done

def i32 : Program Item Int := .op (.read ⟨4, true⟩) .done

def take (count : Int) : Program Item Bytes := .op (.take count) .done

def cstring : Program Item Bytes := .op .cstring .done

def header : Program Item (Int × Option Int) := .op .header .done

def i32s (count : Int) : Program Item (List Int) := .op (.array ⟨4, true⟩ count) .done

def i64s (count : Int) : Program Item (List Int) := .op (.array ⟨8, true⟩ count) .done

def resume : Option Int → Program Item Unit
  | none => pure ()
  | some to_ => .op (.resume to_) .done

def string : Program Item Bytes := do
  let length ← u8
  if length = 255 then
    take (← i32)
  else
    take length

def skipRecord : Program Item Int := do
  let (version, to_) ← header
  match to_ with
  | none => .fail
  | some _ =>
      resume to_
      return version

def tobject : Program Item (Int × Int) := do
  let _ ← u16
  let unique ← u32
  let bits ← u32
  if bits.toNat.testBit 4 then
    let _ ← u16
  return (unique, bits)

def named : Program Item (Bytes × Bytes) := do
  let (_, to_) ← header
  let _ ← tobject
  let name ← string
  let title ← string
  resume to_
  return (name, title)

/-- What objects are to the reader: a class name is one, and each can be spelled. -/
structure Objects (Item : Type) where
  ofName : Bytes → Item
  spell : Item → Bytes

abbrev Classes (Item : Type) := Bytes → Option (Program Item Item)

variable (objects : Objects Item) (classes : Classes Item)

/-- The class a tag names: a new one follows it, and an old one is pointed at. -/
def className (tag after : Int) : Program Item Bytes :=
  if tag = 2 ^ 32 - 1 then do
    let name ← cstring
    .remember (after + 2) (objects.ofName name) (.done name)
  else
    .recollect (tag - 2 ^ 31) fun item =>
      match item.map objects.spell with
      | none => .fail
      | some [] => .fail
      | some name => .done name

def tagged (start tag after : Int) (to_ : Option Int) : Program Item (Option Item) :=
  if !tag.toNat.testBit 31 then
    if tag = 0 then pure none else .recollect tag .done
  else do
    let name ← className objects tag after
    match classes name with
    | none =>
        match to_ with
        | none => .fail
        | some _ =>
            resume to_
            return some (objects.ofName name)
    | some reader =>
        let item ← reader
        .remember (start + 2) item (.done (some item))

def any : Program Item (Option Item) :=
  .here fun start => do
    let count ← u32
    if !count.toNat.testBit 30 ∨ count = 2 ^ 32 - 1 then
      .here fun after => tagged objects classes start count after none
    else
      .here fun after => do
        let tag ← u32
        tagged objects classes start tag after (some (start + 4 + (count - byteCount)))

/-- `[act for _ in range(count)]`. -/
def times {Value : Type} (act : Program Item Value) : Nat → Program Item (List Value)
  | 0 => pure []
  | count + 1 => do
      let first ← act
      let rest ← times act count
      return first :: rest

def tlist : Program Item (List (Option Item)) := do
  let (version, to_) ← header
  if version ≤ 3 then .fail
  else
    let _ ← tobject
    let _ ← string
    let count ← i32
    let items ← times (do
      let item ← any objects classes
      let _ ← string
      return item) count.toNat
    resume to_
    return items

def objarray : Program Item (List (Option Item)) := do
  let (_, to_) ← header
  let _ ← tobject
  let _ ← string
  let size ← i32
  let _ ← i32
  let items ← times (any objects classes) size.toNat
  resume to_
  return items

def numbers (itemsize : Nat) (count : Int) : Program Item Bytes := take (count * itemsize)

/-- `_pointer` of `interp`: a counted member, behind its marker. -/
def counted (itemsize : Nat) (count : Int) : Program Item Bytes := do
  let _ ← u8
  numbers itemsize count

/-- An array of numbers with its length in front, as `_embedded` reads one. -/
def arrayed (itemsize : Nat) : Program Item Bytes := do
  numbers itemsize (← i32)

end Methods

section Orderly

variable {Item Value : Type}

structure Buffer.Inside (buffer : Buffer Item) : Prop where
  after : buffer.offset ≤ buffer.pos
  before : buffer.pos ≤ buffer.limit

/-- The operation has returned all it was asked for, and the cursor stands behind it. -/
def Op.Whole (before after : Buffer Item) : (op : Op) → op.Result → Prop
  | .read form, _ => after.pos = before.pos + form.size
  | .take count, data => (data.length : Int) = count ∧ after.pos = before.pos + count
  | .cstring, name => after.pos = before.pos + name.length + 1
  | .header, (_, to_) => after.pos = before.pos + if to_.isSome then 6 else 2
  | .resume to_, _ => after.pos = to_
  | .array form count, values =>
      (values.length : Int) = count ∧ after.pos = before.pos + count * form.size

/-- An operation raises `FormatError`, or it leaves the cursor behind all it was asked for,
not before where it was and not past the end. -/
def Program.Step.Orderly (step : Program.Step Item) : Prop :=
  match step.act.perform step.before with
  | .error error => error = .format
  | .ok (result, after) => step.before.pos ≤ after.pos ∧ after.pos ≤ step.before.limit ∧
      step.act.Whole step.before after result

/-- Counts and lengths are not negative, and the end of a record lies between the cursor
and the end of the buffer. -/
def Program.Step.Sane (step : Program.Step Item) : Prop :=
  match step.act with
  | .take count => 0 ≤ count
  | .array _ count => 0 ≤ count
  | .resume to_ => step.before.pos ≤ to_ ∧ to_ ≤ step.before.limit
  | _ => True

variable {buffer after : Buffer Item}

theorem length_fetch_inside {data : Bytes} {start count : Nat} (inside : start + count ≤ data.length) :
    (fetch data start count).length = count := by
  rw [length_fetch]
  omega

theorem read_cases (inside : buffer.Inside) (form : Form) :
    (buffer.read form = .error .format ∧ buffer.limit < buffer.pos + form.size) ∨
      buffer.pos + form.size ≤ buffer.limit ∧
      buffer.read form = .ok (form.value
          (fetch buffer.data (buffer.pos - buffer.offset).toNat form.size),
        { buffer with pos := buffer.pos + form.size }) := by
  have start := inside.after
  unfold Buffer.read Buffer.limit
  by_cases short : buffer.pos - buffer.offset + form.size > buffer.data.length
  · left
    rw [if_pos short]
    exact ⟨rfl, by omega⟩
  · right
    refine ⟨by omega, ?_⟩
    rw [if_neg short, unpackFrom, if_neg (by omega), if_neg (by omega)]
    rfl

theorem orderly_error {act : Op} {error : BufferError} (raised : act.perform buffer = .error error) :
    Program.Step.Orderly ⟨act, buffer⟩ ↔ error = .format := by
  rw [Program.Step.Orderly]
  dsimp only
  rw [raised]

theorem orderly_ok {act : Op} {result : act.Result} (done : act.perform buffer = .ok (result, after)) :
    Program.Step.Orderly ⟨act, buffer⟩ ↔ buffer.pos ≤ after.pos ∧ after.pos ≤ buffer.limit ∧
      act.Whole buffer after result := by
  rw [Program.Step.Orderly]
  dsimp only
  rw [done]

theorem read_orderly (inside : buffer.Inside) (form : Form) :
    Program.Step.Orderly ⟨.read form, buffer⟩ := by
  rcases read_cases inside form with ⟨short, -⟩ | ⟨room, taken⟩
  · exact (@orderly_error Item buffer (.read form) _ short).mpr rfl
  · exact (@orderly_ok Item buffer _ (.read form) _ taken).mpr ⟨by dsimp only; omega, room, rfl⟩

theorem slice_inside {data : Bytes} {start stop : Int} (first : 0 ≤ start) (order : start ≤ stop)
    (last : stop ≤ data.length) : ((slice data start stop).length : Int) = stop - start := by
  rw [slice, clamp, clamp, if_neg (by omega), if_neg (by omega), length_fetch_inside] <;> omega

theorem take_orderly_iff (inside : buffer.Inside) (count : Int) :
    Program.Step.Orderly ⟨.take count, buffer⟩ ↔ 0 ≤ count := by
  have start := inside.after
  have finish := inside.before
  have limit : buffer.limit = buffer.offset + buffer.data.length := rfl
  by_cases short : buffer.pos - buffer.offset + count > buffer.data.length
  · have raised : Op.perform (.take count) buffer = .error .format := if_pos short
    rw [orderly_error raised]
    exact iff_of_true rfl (by omega)
  · have taken : Op.perform (.take count) buffer = .ok (slice buffer.data
        (buffer.pos - buffer.offset) (buffer.pos - buffer.offset + count),
        { buffer with pos := buffer.pos + count }) := if_neg short
    rw [orderly_ok taken]
    dsimp only [Op.Whole]
    constructor
    · rintro ⟨forwards, -⟩
      omega
    · intro some
      refine ⟨by omega, by omega, ?_, rfl⟩
      rw [slice_inside (by omega) (by omega) (by omega)]
      omega

theorem array_orderly_iff (inside : buffer.Inside) (form : Form) (count : Int) :
    Program.Step.Orderly ⟨.array form count, buffer⟩ ↔ 0 ≤ count := by
  have start := inside.after
  have finish := inside.before
  have limit : buffer.limit = buffer.offset + buffer.data.length := rfl
  by_cases short : buffer.pos - buffer.offset + count * form.size > buffer.data.length
  · have raised : Op.perform (.array form count) buffer = .error .format := by
      change buffer.array form count = _
      rw [Buffer.array, if_pos short]
      rfl
    rw [orderly_error raised]
    refine iff_of_true rfl ?_
    by_contra negative
    have product : count * form.size ≤ 0 :=
      Int.mul_nonpos_of_nonpos_of_nonneg (by omega) (by omega)
    omega
  by_cases negative : count < 0
  · have raised : Op.perform (.array form count) buffer = .error .other := by
      change buffer.array form count = _
      rw [Buffer.array, if_neg short, if_pos negative]
      rfl
    rw [orderly_error raised]
    exact iff_of_false nofun (by omega)
  · have wide : ((count.toNat * form.size : Nat) : Int) = count * form.size := by
      rw [Int.natCast_mul, Int.toNat_of_nonneg (by omega)]
    have product : 0 ≤ count * form.size := Int.mul_nonneg (by omega) (by omega)
    have read : Op.perform (.array form count) buffer = .ok ((List.range count.toNat).map fun at_ =>
          form.value (fetch (fetch buffer.data (buffer.pos - buffer.offset).toNat
            (count.toNat * form.size)) (at_ * form.size) form.size),
        { buffer with pos := buffer.pos + count * form.size }) := by
      change buffer.array form count = _
      rw [Buffer.array, if_neg short, if_neg negative, unpackFrom, if_neg (by omega),
        if_neg (by omega)]
      rfl
    rw [orderly_ok read]
    refine iff_of_true ⟨?_, ?_, ?_, rfl⟩ (by omega)
    · dsimp only
      omega
    · dsimp only
      omega
    · rw [List.length_map, List.length_range]
      omega

theorem cstring_orderly (inside : buffer.Inside) :
    Program.Step.Orderly ⟨.cstring, buffer⟩ := by
  have start := inside.after
  have finish := inside.before
  have limit : buffer.limit = buffer.offset + buffer.data.length := rfl
  have forwards : ¬buffer.pos - buffer.offset < 0 := by omega
  cases found : (buffer.data.drop (buffer.pos - buffer.offset).toNat).findIdx? (· = 0) with
  | none =>
      have raised : Op.perform .cstring buffer = .error .format := by
        change buffer.cstring = _
        rw [Buffer.cstring, if_neg forwards, found]
        rfl
      exact (orderly_error raised).mpr rfl
  | some place =>
      have bound : place < (buffer.data.drop (buffer.pos - buffer.offset).toNat).length :=
        (List.findIdx?_eq_some_iff_getElem.mp found).1
      rw [List.length_drop] at bound
      have read : Op.perform .cstring buffer = .ok (slice buffer.data (buffer.pos - buffer.offset)
            ((buffer.pos - buffer.offset).toNat + place : Nat),
          { buffer with pos := buffer.pos +
            (((buffer.pos - buffer.offset).toNat + place : Nat) - (buffer.pos - buffer.offset) + 1) }) := by
        change buffer.cstring = _
        rw [Buffer.cstring, if_neg forwards, found]
        rfl
      rw [orderly_ok read]
      dsimp only [Op.Whole]
      refine ⟨by omega, by omega, ?_⟩
      rw [slice_inside (by omega) (by omega) (by omega)]
      omega

theorem header_orderly (inside : buffer.Inside) : Program.Step.Orderly ⟨.header, buffer⟩ := by
  have start := inside.after
  have finish := inside.before
  rcases read_cases inside ⟨4, false⟩ with ⟨short, -⟩ | ⟨room, taken⟩
  · have raised : Op.perform .header buffer = .error .format := by
      change buffer.header = _
      rw [Buffer.header, short]
      rfl
    exact (orderly_error raised).mpr rfl
  · generalize Form.value _ _ = count at taken
    have counted : Buffer.Inside { buffer with pos := buffer.pos + (4 : Nat) } :=
      ⟨by dsimp only; omega, room⟩
    -- the version follows the byte count, or stands where there is none
    by_cases flagged : count.toNat.testBit 30 = true
    · rcases read_cases counted ⟨2, false⟩ with ⟨short, -⟩ | ⟨more, version⟩
      · have raised : Op.perform .header buffer = .error .format := by
          change buffer.header = _
          rw [Buffer.header, taken]
          change (if count.toNat.testBit 30 then _ else _) = _
          rw [if_pos flagged, short]
          rfl
        exact (orderly_error raised).mpr rfl
      · have read : ∃ result, Op.perform .header buffer = .ok ((result, some (buffer.pos + (4 : Nat) +
            (count - byteCount))), { buffer with pos := buffer.pos + (4 : Nat) + (2 : Nat) }) := by
          change ∃ result, buffer.header = _
          rw [Buffer.header, taken]
          change ∃ result, (if count.toNat.testBit 30 then _ else _) = _
          rw [if_pos flagged, version]
          exact ⟨_, rfl⟩
        obtain ⟨result, read⟩ := read
        rw [orderly_ok read]
        dsimp only [Op.Whole] at more ⊢
        exact ⟨by omega, more, by simp only [Option.isSome_some, if_true]; omega⟩
    · rcases read_cases inside ⟨2, false⟩ with ⟨short, -⟩ | ⟨more, version⟩
      · have raised : Op.perform .header buffer = .error .format := by
          change buffer.header = _
          rw [Buffer.header, taken]
          change (if count.toNat.testBit 30 then _ else _) = _
          rw [if_neg flagged, short]
          rfl
        exact (orderly_error raised).mpr rfl
      · have read : ∃ result, Op.perform .header buffer = .ok ((result, none),
            { buffer with pos := buffer.pos + (2 : Nat) }) := by
          change ∃ result, buffer.header = _
          rw [Buffer.header, taken]
          change ∃ result, (if count.toNat.testBit 30 then _ else _) = _
          rw [if_neg flagged, version]
          exact ⟨_, rfl⟩
        obtain ⟨result, read⟩ := read
        rw [orderly_ok read]
        exact ⟨by dsimp only; omega, more, rfl⟩

theorem resume_orderly_iff (to_ : Int) :
    Program.Step.Orderly ⟨.resume to_, buffer⟩ ↔ buffer.pos ≤ to_ ∧ to_ ≤ buffer.limit := by
  have done : Op.perform (.resume to_) buffer = .ok ((), { buffer with pos := to_ }) := rfl
  rw [orderly_ok done]
  exact ⟨fun ⟨first, last, _⟩ => ⟨first, last⟩, fun ⟨first, last⟩ => ⟨first, last, rfl⟩⟩

/-- With the cursor inside the record, an operation is orderly exactly when what it was
given is sane. -/
theorem step_orderly_iff (inside : buffer.Inside) (act : Op) :
    Program.Step.Orderly ⟨act, buffer⟩ ↔ Program.Step.Sane ⟨act, buffer⟩ := by
  cases act with
  | read form => exact iff_of_true (read_orderly inside form) trivial
  | take count => exact take_orderly_iff inside count
  | cstring => exact iff_of_true (cstring_orderly inside) trivial
  | header => exact iff_of_true (header_orderly inside) trivial
  | resume to_ => exact resume_orderly_iff to_
  | array form count => exact array_orderly_iff inside form count

theorem read_frame {form : Form} {value : Int} (done : buffer.read form = .ok (value, after)) :
    after.data = buffer.data ∧ after.offset = buffer.offset := by
  unfold Buffer.read at done
  dsimp only at done
  split_ifs at done
  · cases done
  · obtain ⟨field, -, ends⟩ := Stateful.except_returns done
    cases ends
    exact ⟨rfl, rfl⟩

theorem perform_frame {act : Op} {result : act.Result}
    (done : act.perform buffer = .ok (result, after)) :
    after.data = buffer.data ∧ after.offset = buffer.offset := by
  cases act with
  | read form => exact read_frame done
  | take count =>
      change buffer.take count = _ at done
      unfold Buffer.take at done
      dsimp only at done
      split_ifs at done
      cases done
      exact ⟨rfl, rfl⟩
  | cstring =>
      change buffer.cstring = _ at done
      unfold Buffer.cstring at done
      dsimp only at done
      split at done
      · cases done
      · cases done
        exact ⟨rfl, rfl⟩
  | header =>
      change buffer.header = _ at done
      unfold Buffer.header at done
      obtain ⟨⟨count, counted⟩, first, rest⟩ := Stateful.except_returns done
      have before := read_frame first
      dsimp only at rest
      split_ifs at rest
      · obtain ⟨⟨version, last⟩, second, ends⟩ := Stateful.except_returns rest
        cases ends
        have later := read_frame second
        exact ⟨later.1.trans before.1, later.2.trans before.2⟩
      · obtain ⟨⟨version, last⟩, second, ends⟩ := Stateful.except_returns rest
        cases ends
        exact read_frame second
  | resume to_ =>
      cases done
      exact ⟨rfl, rfl⟩
  | array form count =>
      change buffer.array form count = _ at done
      unfold Buffer.array at done
      dsimp only at done
      by_cases short : buffer.pos - buffer.offset + count * form.size > buffer.data.length
      · rw [if_pos short] at done
        cases done
      rw [if_neg short] at done
      by_cases negative : count < 0
      · rw [if_pos negative] at done
        cases done
      rw [if_neg negative] at done
      obtain ⟨field, -, ends⟩ := Stateful.except_returns done
      cases ends
      exact ⟨rfl, rfl⟩

/-- Every operation of a run is orderly, and so is the run as a whole. -/
structure Program.Orderly (program : Program Item Value) (buffer : Buffer Item) : Prop where
  steps : ∀ step ∈ program.steps buffer, step.Orderly
  whole : match program.run buffer with
    | .error error => error = .format
    | .ok (_, after) => buffer.pos ≤ after.pos ∧ after.pos ≤ buffer.limit

theorem inside_after {act : Op} {result : act.Result} (inside : buffer.Inside)
    (done : act.perform buffer = .ok (result, after))
    (orderly : Program.Step.Orderly ⟨act, buffer⟩) :
    after.Inside ∧ buffer.pos ≤ after.pos ∧ after.limit = buffer.limit := by
  obtain ⟨data, offset⟩ := perform_frame done
  obtain ⟨first, last, -⟩ := (orderly_ok done).mp orderly
  have start := inside.after
  have limit : after.limit = buffer.limit := by rw [Buffer.limit, Buffer.limit, data, offset]
  exact ⟨⟨by rw [offset]; omega, by rw [limit]; exact last⟩, first, limit⟩

theorem steps_orderly_iff (program : Program Item Value) (inside : buffer.Inside) :
    (∀ step ∈ program.steps buffer, step.Orderly) ↔ ∀ step ∈ program.steps buffer, step.Sane := by
  induction program generalizing buffer with
  | done value => exact iff_of_true nofun nofun
  | fail => exact iff_of_true nofun nofun
  | here next induction => exact induction buffer.pos inside
  | recollect place next induction => exact induction _ inside
  | remember place item next induction => exact induction ⟨inside.after, inside.before⟩
  | op act next induction =>
      rw [Program.steps, List.forall_mem_cons, List.forall_mem_cons, ← step_orderly_iff inside act]
      apply and_congr_right
      intro orderly
      cases outcome : act.perform buffer with
      | error error => exact iff_of_true nofun nofun
      | ok both =>
          obtain ⟨result, after⟩ := both
          exact induction result (inside_after inside outcome orderly).1

theorem run_orderly (program : Program Item Value) (inside : buffer.Inside)
    (orderly : ∀ step ∈ program.steps buffer, step.Orderly) :
    match program.run buffer with
    | .error error => error = .format
    | .ok (_, after) => buffer.pos ≤ after.pos ∧ after.pos ≤ buffer.limit := by
  induction program generalizing buffer with
  | done value => exact ⟨Int.le_refl _, inside.before⟩
  | fail => rfl
  | here next induction => exact induction buffer.pos inside orderly
  | recollect place next induction => exact induction _ inside orderly
  | remember place item next induction =>
      exact @induction { buffer with refs := buffer.refs.set place item }
        ⟨inside.after, inside.before⟩ orderly
  | op act next induction =>
      rw [Program.steps, List.forall_mem_cons] at orderly
      rw [Program.run]
      cases outcome : act.perform buffer with
      | error error => exact (orderly_error outcome).mp orderly.1
      | ok both =>
          obtain ⟨result, after⟩ := both
          rw [outcome] at orderly
          obtain ⟨next_, forwards, limit⟩ := inside_after inside outcome orderly.1
          have later := induction result next_ orderly.2
          dsimp only
          revert later
          cases (next result).run after with
          | error error => exact id
          | ok both =>
              rw [limit]
              rintro ⟨first, last⟩
              exact ⟨Int.le_trans forwards first, last⟩

/-- Counts, lengths and ends of records are sane wherever the program meets them. -/
def Program.Sane (program : Program Item Value) (buffer : Buffer Item) : Prop :=
  ∀ step ∈ program.steps buffer, step.Sane

theorem orderly_iff_sane (program : Program Item Value) (inside : buffer.Inside) :
    program.Orderly buffer ↔ program.Sane buffer := by
  rw [Program.Sane, ← steps_orderly_iff program inside]
  exact ⟨fun orderly => orderly.steps, fun steps => ⟨steps, run_orderly program inside steps⟩⟩

/-- Every run of operations from inside the record is orderly exactly when every count and
length it meets is not negative and every end of a record it goes to lies ahead, inside the
buffer. -/
theorem cursor_orderly_iff (program : Program Item Value) (buffer : Buffer Item)
    (inside : buffer.Inside) :
    program.Orderly buffer ↔ ∀ step ∈ program.steps buffer, step.Sane :=
  orderly_iff_sane program inside

end Orderly

section Asked

variable {Item Value Other : Type} {buffer : Buffer Item}

theorem sane_op {act : Op} {next : act.Result → Program Item Value} :
    (Program.op act next).Sane buffer ↔ Program.Step.Sane ⟨act, buffer⟩ ∧
      ∀ result after, act.perform buffer = .ok (result, after) → (next result).Sane after := by
  rw [Program.Sane, Program.steps, List.forall_mem_cons]
  apply and_congr_right
  intro _
  cases outcome : act.perform buffer with
  | error error => exact iff_of_true nofun nofun
  | ok both =>
      constructor
      · intro sane result after same
        cases same
        exact sane
      · exact fun sane => sane _ _ rfl

theorem sane_bind (program : Program Item Value) (rest : Value → Program Item Other) :
    (program >>= rest).Sane buffer ↔ program.Sane buffer ∧
      ∀ value after, program.run buffer = .ok (value, after) → (rest value).Sane after := by
  change (program.bind rest).Sane buffer ↔ _
  induction program generalizing buffer with
  | done value =>
      constructor
      · refine fun sane => ⟨nofun, fun other after same => ?_⟩
        cases same
        exact sane
      · exact fun both => both.2 _ _ rfl
  | fail => exact iff_of_true nofun ⟨nofun, nofun⟩
  | here next induction => exact induction buffer.pos
  | recollect place next induction => exact induction _
  | remember place item next induction => exact induction
  | op act next induction =>
      rw [sane_op, Program.bind, sane_op]
      simp only [induction, Program.run]
      cases outcome : act.perform buffer with
      | error error => simp
      | ok both =>
          obtain ⟨result, left⟩ := both
          constructor
          · intro ⟨here, later⟩
            have both := later result left rfl
            refine ⟨⟨here, fun other after same => ?_⟩, both.2⟩
            cases same
            exact both.1
          · intro ⟨⟨here, later⟩, behind⟩
            refine ⟨here, fun other after same => ?_⟩
            cases same
            exact ⟨later result left rfl, behind⟩

theorem sane_pure (value : Value) : (pure value : Program Item Value).Sane buffer := nofun

theorem sane_here {next : Int → Program Item Value} :
    (Program.here next).Sane buffer ↔ (next buffer.pos).Sane buffer := Iff.rfl

theorem sane_read (form : Form) : (Program.op (.read form) .done : Program Item Int).Sane buffer :=
  sane_op.mpr ⟨trivial, fun _ _ _ => nofun⟩

theorem sane_u8 : (u8 : Program Item Int).Sane buffer := sane_read _

theorem sane_u32 : (u32 : Program Item Int).Sane buffer := sane_read _

theorem sane_i32 : (i32 : Program Item Int).Sane buffer := sane_read _

theorem sane_header : (header : Program Item _).Sane buffer :=
  sane_op.mpr ⟨trivial, fun _ _ _ => nofun⟩

theorem sane_take (count : Int) : (take count : Program Item Bytes).Sane buffer ↔ 0 ≤ count :=
  sane_op.trans (and_iff_left fun _ _ _ => nofun)

theorem sane_resume (to_ : Option Int) : (resume to_ : Program Item Unit).Sane buffer ↔
    ∀ place ∈ to_, buffer.pos ≤ place ∧ place ≤ buffer.limit := by
  cases to_ with
  | none => exact iff_of_true (sane_pure ()) nofun
  | some place =>
      have only : (resume (some place) : Program Item Unit).Sane buffer ↔ _ :=
        sane_op.trans (and_iff_left fun _ _ _ => nofun)
      rw [only]
      simp [Program.Step.Sane]

theorem sane_tobject : (tobject : Program Item _).Sane buffer := by
  refine (sane_bind _ _).mpr ⟨sane_read _, fun _ _ _ => (sane_bind _ _).mpr ⟨sane_read _, fun _ _ _ =>
    (sane_bind _ _).mpr ⟨sane_read _, fun bits _ _ => ?_⟩⟩⟩
  dsimp only
  split_ifs
  · exact (sane_bind _ _).mpr ⟨sane_read _, fun _ _ _ => sane_pure _⟩
  · exact sane_pure _

theorem run_one (act : Op) :
    (Program.op act .done : Program Item act.Result).run buffer = act.perform buffer := by
  rw [Program.run]
  cases act.perform buffer with
  | error error => rfl
  | ok both => rfl

theorem unsigned_read {value : Int} {after : Buffer Item}
    (read : (u8 : Program Item Int).run buffer = .ok (value, after)) : 0 ≤ value := by
  have known : buffer.read ⟨1, false⟩ = .ok (value, after) := (run_one (.read ⟨1, false⟩)).symm.trans read
  unfold Buffer.read at known
  dsimp only at known
  split_ifs at known
  · cases known
  · obtain ⟨field, -, ends⟩ := Stateful.except_returns known
    cases ends
    exact Int.natCast_nonneg _

theorem sane_string : (string : Program Item _).Sane buffer ↔
    ∀ before, u8.run buffer = .ok (255, before) →
      ∀ count after, i32.run before = .ok (count, after) → 0 ≤ count := by
  rw [string, sane_bind, and_iff_right sane_u8]
  constructor
  · intro sane before known count after read
    have long := sane 255 before known
    rw [if_pos rfl, sane_bind] at long
    exact (sane_take count).mp (long.2 count after read)
  · intro asked value after known
    by_cases long : value = 255
    · subst long
      rw [if_pos rfl]
      exact (sane_bind _ _).mpr ⟨sane_read _, fun count later read =>
        (sane_take count).mpr (asked after known count later read)⟩
    · rw [if_neg long]
      exact (sane_take value).mpr (unsigned_read known)

theorem sane_skip_record : (skipRecord : Program Item _).Sane buffer ↔
    ∀ version place after, header.run buffer = .ok ((version, some place), after) →
      after.pos ≤ place ∧ place ≤ after.limit := by
  rw [skipRecord, sane_bind, and_iff_right sane_header]
  constructor
  · intro sane version place after known
    have ends := ((sane_bind _ _).mp (sane _ after known)).1
    exact (sane_resume (some place)).mp ends place rfl
  · intro asked both after known
    obtain ⟨version, to_⟩ := both
    cases to_ with
    | none => exact nofun
    | some place =>
        refine (sane_bind _ _).mpr ⟨(sane_resume (some place)).mpr ?_, fun _ _ _ => sane_pure _⟩
        intro other same
        cases same
        exact asked version place after known

theorem sane_named : (named : Program Item _).Sane buffer ↔
    ∀ version to_ start, header.run buffer = .ok ((version, to_), start) →
      ∀ base name, tobject.run start = .ok (base, name) → string.Sane name ∧
        ∀ first title, string.run name = .ok (first, title) → string.Sane title ∧
          ∀ second after, string.run title = .ok (second, after) → (resume to_).Sane after := by
  rw [named, sane_bind, and_iff_right sane_header, Prod.forall]
  simp only [sane_bind, sane_tobject, sane_pure, true_and, implies_true, and_true]

theorem sane_class_name (objects : Objects Item) (tag place : Int) :
    (className objects tag place).Sane buffer := by
  unfold className
  split_ifs
  · exact (sane_bind _ _).mpr ⟨sane_op.mpr ⟨trivial, fun _ _ _ => nofun⟩, fun _ _ _ => nofun⟩
  · rw [Program.Sane, Program.steps]
    split <;> exact nofun

theorem sane_times (act : Program Item Value) (count : Nat) :
    (times act (count + 1)).Sane buffer ↔ act.Sane buffer ∧
      ∀ value after, act.run buffer = .ok (value, after) → (times act count).Sane after := by
  rw [times, sane_bind]
  simp only [sane_bind, sane_pure, implies_true, and_true]

section Classes

variable (objects : Objects Item) (classes : Classes Item)

/-- An object asks what the reader of its class does, or the end of its record where there
is none. -/
theorem sane_tagged (start tag place : Int) (to_ : Option Int) :
    (tagged objects classes start tag place to_).Sane buffer ↔ (tag.toNat.testBit 31 = true →
      ∀ name after, (className objects tag place).run buffer = .ok (name, after) →
        (∀ reader, classes name = some reader → reader.Sane after) ∧
          (classes name = none → (resume to_ : Program Item Unit).Sane after)) := by
  unfold tagged
  cases flagged : tag.toNat.testBit 31 with
  | false =>
      rw [Bool.not_false, if_pos rfl]
      refine iff_of_true ?_ nofun
      split_ifs
      · exact sane_pure _
      · exact nofun
  | true =>
      rw [Bool.not_true, if_neg Bool.false_ne_true, sane_bind,
        and_iff_right (sane_class_name objects tag place),
        forall_prop_of_true rfl]
      apply forall_congr'
      intro name
      apply forall_congr'
      intro after
      apply imp_congr_right
      intro _
      cases classes name with
      | some reader =>
          rw [sane_bind, and_iff_left fun _ _ _ => nofun]
          simp
      | none =>
          cases to_ with
          | none => exact iff_of_true nofun ⟨nofun, fun _ => sane_pure ()⟩
          | some place =>
              rw [sane_bind, and_iff_left fun _ _ _ => sane_pure _]
              simp

theorem sane_any : (any objects classes).Sane buffer ↔
    ∀ count start, u32.run buffer = .ok (count, start) →
      if !count.toNat.testBit 30 ∨ count = 2 ^ 32 - 1 then
        (tagged objects classes buffer.pos count start.pos none).Sane start
      else
        ∀ tag after, u32.run start = .ok (tag, after) →
          (tagged objects classes buffer.pos tag start.pos
            (some (buffer.pos + 4 + (count - byteCount)))).Sane after := by
  rw [any, sane_here, sane_bind, and_iff_right sane_u32]
  apply forall₂_congr
  intro count start
  apply imp_congr_right
  intro _
  split_ifs
  · rfl
  · rw [sane_here, sane_bind, and_iff_right sane_u32]

def element : Program Item (Option Item) := do
  let item ← any objects classes
  let _ ← string
  return item

theorem sane_tlist : (tlist objects classes).Sane buffer ↔
    ∀ version to_ start, header.run buffer = .ok ((version, to_), start) → 3 < version →
      ∀ base name, tobject.run start = .ok (base, name) → string.Sane name ∧
        ∀ first sized, string.run name = .ok (first, sized) →
          ∀ size items, i32.run sized = .ok (size, items) →
            (times (element objects classes) size.toNat).Sane items ∧
              ∀ values after, (times (element objects classes) size.toNat).run items = .ok (values, after) →
                (resume to_ : Program Item Unit).Sane after := by
  rw [tlist, sane_bind, and_iff_right sane_header, Prod.forall]
  apply forall₃_congr
  intro version to_ start
  apply imp_congr_right
  intro _
  dsimp only
  by_cases low : version ≤ 3
  · rw [if_pos low]
    exact iff_of_true nofun fun more => absurd low (Int.not_le.mpr more)
  · rw [if_neg low, forall_prop_of_true (Int.not_le.mp low)]
    simp only [sane_bind, sane_tobject, sane_i32, sane_pure, true_and, implies_true, and_true]
    rfl

theorem sane_objarray : (objarray objects classes).Sane buffer ↔
    ∀ version to_ start, header.run buffer = .ok ((version, to_), start) →
      ∀ base name, tobject.run start = .ok (base, name) → string.Sane name ∧
        ∀ first sized, string.run name = .ok (first, sized) →
          ∀ size low, i32.run sized = .ok (size, low) → ∀ bound items, i32.run low = .ok (bound, items) →
            (times (any objects classes) size.toNat).Sane items ∧
              ∀ values after, (times (any objects classes) size.toNat).run items = .ok (values, after) →
                (resume to_ : Program Item Unit).Sane after := by
  rw [objarray, sane_bind, and_iff_right sane_header, Prod.forall]
  simp only [sane_bind, sane_tobject, sane_i32, sane_pure, true_and, implies_true, and_true]

end Classes

variable (inside : buffer.Inside)

include inside

theorem tobject_orderly : (tobject : Program Item _).Orderly buffer :=
  (orderly_iff_sane _ inside).mpr sane_tobject

theorem string_orderly_iff : (string : Program Item _).Orderly buffer ↔
    ∀ before, u8.run buffer = .ok (255, before) →
      ∀ count after, i32.run before = .ok (count, after) → 0 ≤ count :=
  (orderly_iff_sane _ inside).trans sane_string

theorem skip_record_orderly_iff : (skipRecord : Program Item _).Orderly buffer ↔
    ∀ version place after, header.run buffer = .ok ((version, some place), after) →
      after.pos ≤ place ∧ place ≤ after.limit :=
  (orderly_iff_sane _ inside).trans sane_skip_record

theorem arrays_orderly_iff (count : Int) :
    ((i32s count : Program Item _).Orderly buffer ↔ 0 ≤ count) ∧
      ((i64s count : Program Item _).Orderly buffer ↔ 0 ≤ count) :=
  ⟨(orderly_iff_sane _ inside).trans (sane_op.trans (and_iff_left fun _ _ _ => nofun)),
    (orderly_iff_sane _ inside).trans (sane_op.trans (and_iff_left fun _ _ _ => nofun))⟩

theorem arrayed_orderly_iff (itemsize : Nat) : (arrayed itemsize : Program Item _).Orderly buffer ↔
    ∀ count after, i32.run buffer = .ok (count, after) → 0 ≤ count * itemsize := by
  rw [orderly_iff_sane _ inside, arrayed, sane_bind, and_iff_right sane_i32]
  simp only [numbers, sane_take]

theorem counted_orderly_iff (itemsize : Nat) (count : Int) :
    (counted itemsize count : Program Item _).Orderly buffer ↔
      ∀ mark after, u8.run buffer = .ok (mark, after) → 0 ≤ count * itemsize := by
  rw [orderly_iff_sane _ inside, counted, sane_bind, and_iff_right sane_u8]
  simp only [numbers, sane_take]

end Asked

def fresh (data : Bytes) : Buffer Unit where
  data := data
  offset := 0
  pos := 0

theorem short_string_orderly :
    (string : Program Unit Bytes).Orderly (fresh [2, 65, 66]) := by
  refine (cursor_orderly_iff string (fresh [2, 65, 66]) ⟨by decide, by decide⟩).mpr ?_
  have steps : (string : Program Unit Bytes).steps (fresh [2, 65, 66]) =
      [⟨.read ⟨1, false⟩, fresh [2, 65, 66]⟩,
        ⟨.take 2, { fresh [2, 65, 66] with pos := 1 }⟩] := rfl
  rw [steps]
  intro step member
  rcases List.mem_cons.mp member with rfl | later
  · trivial
  · rw [List.mem_singleton.mp later]
    exact (by decide : (0 : Int) ≤ 2)

/-- A string whose length is written as -6: the cursor goes from 1 to 6 and back to 0. -/
theorem negative_string_backwards :
    ¬ (do let _ ← u8; string : Program Unit Bytes).Orderly (fresh [0, 255, 255, 255, 255, 250]) := by
  intro orderly
  have steps : (do let _ ← u8; string : Program Unit Bytes).steps
      (fresh [0, 255, 255, 255, 255, 250]) =
      [⟨.read ⟨1, false⟩, fresh [0, 255, 255, 255, 255, 250]⟩,
        ⟨.read ⟨1, false⟩, { fresh [0, 255, 255, 255, 255, 250] with pos := 1 }⟩,
        ⟨.read ⟨4, true⟩, { fresh [0, 255, 255, 255, 255, 250] with pos := 2 }⟩,
        ⟨.take (-6), { fresh [0, 255, 255, 255, 255, 250] with pos := 6 }⟩] := rfl
  have back := orderly.steps ⟨.take (-6), { fresh [0, 255, 255, 255, 255, 250] with pos := 6 }⟩
    (by rw [steps]; simp)
  exact absurd ((take_orderly_iff ⟨by decide, by decide⟩ (-6)).mp back) (by decide)

end XRootDClient.Root

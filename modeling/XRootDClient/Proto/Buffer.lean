import XRootDClient.Errors
import XRootDClient.Lib.BigEndian

/-!
# Big-endian cursors

`Reader` walks a body from the front and raises `ProtocolError` when it would
pass the end; the error names what was being decoded and where. `Writer` checks
the range of every fixed-width field, as `struct.pack` does.
-/

set_option autoImplicit false

namespace XRootDClient.Proto

open Lib Lib.BigEndian

structure Reader where
  what : Text
  position : Nat
  unread : Bytes

abbrev Decoder := StateT Reader (Except Exception)

namespace Reader

def new (data : Bytes) (what : String) : Reader where
  what := str what
  position := 0
  unread := data

def take (count : Int) : Decoder Bytes := do
  let reader ← get
  if count < 0 then
    throw (.protocolError (reader.what ++ str ": negative read of " ++ Text.ofInt count ++
      str " bytes"))
  if count > reader.unread.length then
    throw (.protocolError (reader.what ++ str ": truncated - wanted " ++ Text.ofInt count ++
      str " bytes at offset " ++ Text.ofNat reader.position ++ str ", only " ++
      Text.ofNat reader.unread.length ++ str " remain"))
  set { reader with
    position := reader.position + count.toNat
    unread := reader.unread.drop count.toNat }
  return reader.unread.take count.toNat

def unsigned (width : Nat) : Decoder Nat := do
  return decode (← take width)

def u8 : Decoder Nat := unsigned 1

def u16 : Decoder Nat := unsigned 2

def u32 : Decoder Nat := unsigned 4

def i32 : Decoder Int := do
  return signed 4 (← unsigned 4)

def i64 : Decoder Int := do
  return signed 8 (← unsigned 8)

def bytes (count : Int) : Decoder Bytes := take count

def skip (count : Int) : Decoder Unit := do
  let _ ← take count

def remaining : Decoder Nat := do
  return (← get).unread.length

def rest : Decoder Bytes := do
  take (← remaining)

/-- `cstring()` with no width: up to the next NUL, which is consumed, or the end. -/
def cstring : Decoder Text := do
  let reader ← get
  let head := reader.unread.takeWhile (· ≠ 0)
  let after := reader.unread.drop (head.length + 1)
  set { reader with
    position := reader.position + (reader.unread.length - after.length)
    unread := after }
  return Text.decodeUtf8 head

def run {Value : Type} (decoder : Decoder Value) (data : Bytes) (what : String) :
    Except Exception Value := do
  return (← StateT.run decoder (new data what)).1

theorem take_front (what : Text) (position : Nat) (front back : Bytes) :
    (take front.length).run ⟨what, position, front ++ back⟩ =
      .ok (front, ⟨what, position + front.length, back⟩) := by
  have whole : ¬(front.length : Int) < 0 := by omega
  have enough : ¬(front.length : Int) > ((front ++ back).length : Nat) := by
    rw [List.length_append]
    omega
  simp only [take, StateT.run, bind, StateT.bind, Except.bind, get, getThe, MonadStateOf.get,
    StateT.get, pure, Except.pure, set]
  delta StateT.pure StateT.set
  simp only [pure, Except.pure, if_neg whole, if_neg enough, Int.toNat_natCast, List.take_left,
    List.drop_left]
  rfl

end Reader

namespace Writer

/-- `struct.pack` of an unsigned field of `width` bytes. -/
def unsigned (width : Nat) (value : Nat) : Except Exception Bytes :=
  if value < 256 ^ width then .ok (encode width value)
  else .error (.structError (str "argument out of range"))

def u8 (value : Nat) : Except Exception Bytes := unsigned 1 value

def u16 (value : Nat) : Except Exception Bytes := unsigned 2 value

def u32 (value : Nat) : Except Exception Bytes := unsigned 4 value

def u64 (value : Nat) : Except Exception Bytes := unsigned 8 value

/-- Whether a signed field of `width` bytes holds the value: `-half ≤ value < half`. -/
def fits (width : Nat) : Int → Bool
  | .ofNat value => value < 256 ^ width / 2
  | .negSucc below => below < 256 ^ width / 2

/-- `struct.pack` of a signed field of `width` bytes. -/
def signed (width : Nat) (value : Int) : Except Exception Bytes :=
  if fits width value then .ok (encode width (BigEndian.unsigned width value))
  else .error (.structError (str "argument out of range"))

def i32 (value : Int) : Except Exception Bytes := signed 4 value

def i64 (value : Int) : Except Exception Bytes := signed 8 value

def zeros (count : Nat) : Bytes := List.replicate count 0

def padded (data : Bytes) (width : Nat) : Bytes :=
  data.take width ++ zeros (width - data.length)

@[simp] theorem padded_length (data : Bytes) (width : Nat) :
    (padded data width).length = width := by
  simp only [padded, zeros, List.length_append, List.length_take, List.length_replicate]
  omega

theorem unsigned_ok {width value : Nat} {written : Bytes}
    (done : unsigned width value = .ok written) :
    value < 256 ^ width ∧ written = encode width value := by
  unfold unsigned at done
  split at done
  · next bounded => exact ⟨bounded, (Except.ok.inj done).symm⟩
  · cases done

end Writer

end XRootDClient.Proto

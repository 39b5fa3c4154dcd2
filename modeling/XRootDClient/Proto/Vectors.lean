import XRootDClient.Lib.Stateful
import XRootDClient.Proto.Requests

/-!
# Vector reads on the wire

`kXR_readv` asks for many ranges at once: its payload is one sixteen-byte element per
range, and its answer one segment per element, each with a header of its own.
-/

set_option autoImplicit false

namespace XRootDClient.Proto

open Lib Lib.BigEndian Lib.Stateful

structure ReadVChunk where
  fhandle : Bytes
  offset : Int
  length : Int

def ReadVChunk.bytes (chunk : ReadVChunk) : Except Exception Bytes := do
  return Writer.padded chunk.fhandle 4 ++ (← Writer.i32 chunk.length) ++
    (← Writer.i64 chunk.offset)

/-- `kXR_readv`: many scattered ranges in one round trip. -/
def Request.ReadV (chunks : List ReadVChunk) (pathid : Nat) : Request where
  typeName := str "ReadV"
  opcode := kXR_readv
  params := do
    return Writer.zeros 15 ++ (← Writer.u8 pathid)
  payload := do
    return (← chunks.mapM ReadVChunk.bytes).flatten
  pathid := pathid
  replyOnPath := true

structure ReadVSegment where
  fhandle : Bytes
  offset : Int
  data : Bytes

/-- The loop of `parse_readv`, which takes sixteen bytes or more in each turn. -/
def readvSegments : Nat → Decoder (List ReadVSegment)
  | 0 => return []
  | fuel + 1 => do
      if (← Reader.remaining) = 0 then
        return []
      let fhandle ← Reader.bytes FHANDLE_LEN
      let length ← Reader.i32
      let offset ← Reader.i64
      if length < 0 then
        throw (.protocolError (str "kXR_readv segment declares a negative length of " ++
          Text.ofInt length))
      let data ← Reader.bytes length
      return ⟨fhandle, offset, data⟩ :: (← readvSegments fuel)

def parseReadv (data : Bytes) : Except Exception (List ReadVSegment) :=
  Reader.run (readvSegments data.length) data "kXR_readv"

/-- Whether the element can be written: both its numbers fit their fields. -/
def ReadVChunk.Fits (chunk : ReadVChunk) : Prop :=
  Writer.fits 4 chunk.length = true ∧ Writer.fits 8 chunk.offset = true

theorem ReadVChunk.bytes_ok {chunk : ReadVChunk} (fits : chunk.Fits) :
    ∃ written, chunk.bytes = .ok written ∧ written.length = 16 := by
  refine ⟨Writer.padded chunk.fhandle 4 ++
    BigEndian.encode 4 (BigEndian.unsigned 4 chunk.length) ++
    BigEndian.encode 8 (BigEndian.unsigned 8 chunk.offset), ?_, by simp⟩
  rw [ReadVChunk.bytes, Writer.i32, Writer.i64, Writer.signed, Writer.signed, if_pos fits.1,
    if_pos fits.2]
  rfl

theorem ReadVChunk.fits_of_bytes {chunk : ReadVChunk} {written : Bytes}
    (done : chunk.bytes = .ok written) : chunk.Fits := by
  unfold ReadVChunk.bytes Writer.i32 Writer.i64 Writer.signed at done
  by_cases length : Writer.fits 4 chunk.length
  · by_cases offset : Writer.fits 8 chunk.offset
    · exact ⟨length, offset⟩
    · simp [length, offset, bind, Except.bind] at done
  · simp [length, bind, Except.bind] at done

theorem ReadVChunk.all_bytes {chunks : List ReadVChunk} (fits : ∀ chunk ∈ chunks, chunk.Fits) :
    ∃ written, chunks.mapM ReadVChunk.bytes = .ok written ∧
      written.flatten.length = 16 * chunks.length := by
  induction chunks with
  | nil => exact ⟨[], rfl, rfl⟩
  | cons chunk rest induction =>
      obtain ⟨first, done, sixteen⟩ := ReadVChunk.bytes_ok (fits chunk List.mem_cons_self)
      obtain ⟨others, later, width⟩ := induction fun other member =>
        fits other (List.mem_cons_of_mem chunk member)
      refine ⟨first :: others, ?_, ?_⟩
      · rw [List.mapM_cons, done, later]
        rfl
      · rw [List.flatten_cons, List.length_append, sixteen, width, List.length_cons]
        omega

theorem ReadVChunk.all_fit {chunks : List ReadVChunk} {written : List Bytes}
    (done : chunks.mapM ReadVChunk.bytes = .ok written) : ∀ chunk ∈ chunks, chunk.Fits := by
  induction chunks generalizing written with
  | nil => exact fun _ member => absurd member List.not_mem_nil
  | cons chunk rest induction =>
      rw [List.mapM_cons] at done
      obtain ⟨front, first, done⟩ := except_returns done
      obtain ⟨others, later, -⟩ := except_returns done
      intro other member
      rcases List.mem_cons.mp member with rfl | behind
      · exact ReadVChunk.fits_of_bytes first
      · exact induction later other behind

/-- A vector read of few enough elements is written exactly when each of them can be. -/
theorem readv_encodes {chunks : List ReadVChunk} {pathid : Nat} (path : pathid < 256)
    (few : chunks.length ≤ 1024) (streamid : Nat) :
    (∃ frame, encode (Request.ReadV chunks pathid) streamid = .ok frame) ↔
      ∀ chunk ∈ chunks, chunk.Fits := by
  constructor
  · rintro ⟨frame, encoded⟩
    obtain ⟨_, body, _, _, payload, _⟩ := encode_ok encoded
    obtain ⟨parts, written, -⟩ := except_returns payload
    exact ReadVChunk.all_fit written
  · intro fits
    obtain ⟨parts, written, width⟩ := ReadVChunk.all_bytes fits
    have block : (Request.ReadV chunks pathid).params =
        .ok (Writer.zeros 15 ++ BigEndian.encode 1 pathid) := by
      rw [Request.ReadV, Writer.u8, Writer.unsigned, if_pos (by simpa using path)]
      rfl
    have payload : (Request.ReadV chunks pathid).payload = .ok parts.flatten := by
      rw [Request.ReadV, written]
      rfl
    apply encode_writes _ streamid block (by simp [Writer.zeros]) payload
    · have room : 16 * 1024 ≤ MAX_FRAME_PAYLOAD := by decide
      rw [width]
      simp only [Request.ReadV, List.length_nil]
      omega
    · exact (by decide : kXR_readv < 0x10000)

def ReadVSegment.bytes (segment : ReadVSegment) : Bytes :=
  segment.fhandle ++ BigEndian.encode 4 segment.data.length ++
    BigEndian.encode 8 (BigEndian.unsigned 8 segment.offset) ++ segment.data

structure ReadVSegment.Proper (segment : ReadVSegment) : Prop where
  handle : segment.fhandle.length = 4
  data : segment.data.length < 2 ^ 31
  low : -2 ^ 63 ≤ segment.offset
  high : segment.offset < 2 ^ 63

namespace Reader

section Front

variable (what : Text) (position : Nat) (back : Bytes)

theorem run_then {Value Other : Type} {first : Decoder Value} {rest : Value → Decoder Other}
    {reader after : Reader} {value : Value} (returned : first.run reader = .ok (value, after)) :
    (first >>= rest).run reader = (rest value).run after := by
  rw [StateT.run_bind, returned]
  rfl

theorem unsigned_front (width : Nat) {value : Nat} (bounded : value < 256 ^ width) :
    (unsigned width).run ⟨what, position, BigEndian.encode width value ++ back⟩ =
      .ok (value, ⟨what, position + width, back⟩) := by
  have taken := take_front what position (BigEndian.encode width value) back
  rw [encode_length] at taken
  rw [unsigned, run_then taken, decode_encode bounded]
  rfl

theorem bytes_front {count : Int} {front : Bytes} (whole : count = front.length) :
    (bytes count).run ⟨what, position, front ++ back⟩ =
      .ok (front, ⟨what, position + front.length, back⟩) := by
  rw [whole]
  exact take_front what position front back

theorem i32_front {value : Nat} (bounded : value < 2 ^ 31) :
    i32.run ⟨what, position, BigEndian.encode 4 value ++ back⟩ =
      .ok ((value : Int), ⟨what, position + 4, back⟩) := by
  have same : signed 4 value = value := if_pos bounded
  rw [i32, run_then (unsigned_front what position back 4 (lt_trans bounded (by decide))), same]
  rfl

theorem i64_front {value : Int} (low : -2 ^ 63 ≤ value) (high : value < 2 ^ 63) :
    i64.run ⟨what, position, BigEndian.encode 8 (BigEndian.unsigned 8 value) ++ back⟩ =
      .ok (value, ⟨what, position + 8, back⟩) := by
  have bounded : BigEndian.unsigned 8 value < 256 ^ 8 := by
    unfold BigEndian.unsigned
    omega
  have same : signed 8 (BigEndian.unsigned 8 value) = value := signed_unsigned low high
  rw [i64, run_then (unsigned_front what position back 8 bounded), same]
  rfl

end Front

end Reader

theorem readv_segments_end (fuel : Nat) (what : Text) (position : Nat) :
    (readvSegments fuel).run ⟨what, position, []⟩ = .ok ([], ⟨what, position, []⟩) := by
  cases fuel <;> rfl

theorem readv_segments_cons {segment : ReadVSegment} (proper : segment.Proper) (fuel : Nat)
    (what : Text) (position : Nat) (back : Bytes) {others : List ReadVSegment} {after : Reader}
    (later : (readvSegments fuel).run ⟨what, position + 4 + 4 + 8 + segment.data.length, back⟩ =
      .ok (others, after)) :
    (readvSegments (fuel + 1)).run ⟨what, position, segment.bytes ++ back⟩ =
      .ok (segment :: others, after) := by
  have some : ¬(segment.bytes ++ back).length = 0 := by
    simp [ReadVSegment.bytes]
  have left : ¬(segment.data.length : Int) < 0 := by omega
  have unread : segment.bytes ++ back = segment.fhandle ++
      (BigEndian.encode 4 segment.data.length ++
        (BigEndian.encode 8 (BigEndian.unsigned 8 segment.offset) ++ (segment.data ++ back))) := by
    simp only [ReadVSegment.bytes, List.append_assoc]
  have width : (FHANDLE_LEN : Int) = segment.fhandle.length := by
    rw [proper.handle]
  have remaining : Reader.remaining.run ⟨what, position, segment.bytes ++ back⟩ =
      .ok ((segment.bytes ++ back).length, ⟨what, position, segment.bytes ++ back⟩) := rfl
  rw [readvSegments, Reader.run_then remaining, if_neg some, unread,
    Reader.run_then (Reader.bytes_front what position _ width),
    Reader.run_then (Reader.i32_front what _ _ proper.data),
    Reader.run_then (Reader.i64_front what _ _ proper.low proper.high), if_neg left,
    Reader.run_then (Reader.bytes_front what _ back rfl), proper.handle, Reader.run_then later]
  rfl

theorem readv_segments_all {segments : List ReadVSegment}
    (proper : ∀ segment ∈ segments, segment.Proper) (fuel : Nat) (enough : segments.length ≤ fuel)
    (what : Text) (position : Nat) :
    ∃ after, (readvSegments fuel).run ⟨what, position, segments.flatMap ReadVSegment.bytes⟩ =
      .ok (segments, after) := by
  induction segments generalizing fuel position with
  | nil => exact ⟨_, readv_segments_end fuel what position⟩
  | cons segment rest induction =>
      cases fuel with
      | zero => exact absurd enough (Nat.not_succ_le_zero _)
      | succ fuel =>
          obtain ⟨after, later⟩ := induction
            (fun other member => proper other (List.mem_cons_of_mem segment member)) fuel
            (Nat.le_of_succ_le_succ enough) (position + 4 + 4 + 8 + segment.data.length)
          rw [List.flatMap_cons]
          exact ⟨after, readv_segments_cons (proper segment List.mem_cons_self) fuel what position
            _ later⟩

theorem parse_readv_bytes {segments : List ReadVSegment}
    (proper : ∀ segment ∈ segments, segment.Proper) :
    parseReadv (segments.flatMap ReadVSegment.bytes) = .ok segments := by
  have enough : segments.length ≤ (segments.flatMap ReadVSegment.bytes).length := by
    clear proper
    induction segments with
    | nil => exact Nat.le_refl 0
    | cons segment rest induction =>
        simp only [List.flatMap_cons, List.length_append, List.length_cons, ReadVSegment.bytes,
          encode_length]
        omega
  obtain ⟨after, read⟩ := readv_segments_all proper _ enough (str "kXR_readv") 0
  rw [parseReadv, Reader.run, Reader.new, read]
  rfl

end XRootDClient.Proto

import Mathlib.Data.List.Perm.Basic
import XRootDClient.Client.File
import XRootDClient.Lib.Batching
import XRootDClient.Proto.Vectors

/-!
# Vector reads and writes

Many scattered ranges are cut into requests under the server's ceilings. The segments of
the answers are collected by offset, in the order they arrive, and each range takes the
next one of its offset; the last of an offset is left for whoever else asks for it.
-/

set_option autoImplicit false

namespace XRootDClient.Client

open Lib Lib.BigEndian Lib.Batching Lib.Extent Lib.Stateful Proto

structure ReadRange where
  offset : Int
  length : Int
  deriving DecidableEq

structure WriteChunk where
  offset : Int
  data : Bytes

def READV_MAX_CHUNKS : Nat := 1024

def READV_MAX_BYTES : Nat := 2097152

/-- What a generator yields, and the exception that ends it, if one does. -/
structure Generated (Item : Type) where
  yielded : List Item
  raised : Option Exception := none

def tooLong (range : ReadRange) : Exception :=
  .protocolError (str "readv element of " ++ Text.ofInt range.length ++ str " bytes exceeds the " ++
    Text.ofNat READV_MAX_BYTES ++ str " limit; use read() for ranges this large")

def batchesFrom (batch : List ReadRange) (total : Int) : List ReadRange →
    Generated (List ReadRange)
  | [] => { yielded := if batch.isEmpty then [] else [batch] }
  | range :: rest =>
      if range.length > READV_MAX_BYTES then { yielded := [], raised := some (tooLong range) }
      else if !batch.isEmpty && (batch.length ≥ READV_MAX_CHUNKS ||
          total + range.length > READV_MAX_BYTES) then
        let later := batchesFrom [range] range.length rest
        { later with yielded := batch :: later.yielded }
      else batchesFrom (batch ++ [range]) (total + range.length) rest

def batches (ranges : List ReadRange) : Generated (List ReadRange) := batchesFrom [] 0 ranges

/-- `_write_batches`, which has no ceiling on a single chunk. -/
def writeBatches (chunks : List WriteChunk) : List (List WriteChunk) :=
  greedy READV_MAX_CHUNKS READV_MAX_BYTES (fun chunk => (chunk.data.length : Int)) chunks

theorem batches_from_accepts {ranges batch : List ReadRange} {total : Int}
    (accepted : (batchesFrom batch total ranges).raised = none) :
    (batchesFrom batch total ranges).yielded =
      greedyFrom READV_MAX_CHUNKS READV_MAX_BYTES ReadRange.length batch total ranges ∧
    ∀ range ∈ ranges, range.length ≤ READV_MAX_BYTES := by
  induction ranges generalizing batch total with
  | nil => exact ⟨rfl, fun _ member => absurd member List.not_mem_nil⟩
  | cons range rest induction =>
      rw [batchesFrom] at accepted ⊢
      by_cases long : range.length > READV_MAX_BYTES
      · rw [if_pos long] at accepted
        cases accepted
      rw [if_neg long] at accepted ⊢
      rw [greedyFrom, full]
      split at accepted
      · next closed =>
          obtain ⟨yielded, fits⟩ := induction accepted
          rw [if_pos closed, if_pos closed, ← yielded]
          exact ⟨rfl, List.forall_mem_cons.mpr ⟨Int.not_lt.mp long, fits⟩⟩
      · next room =>
          obtain ⟨yielded, fits⟩ := induction accepted
          rw [if_neg room, if_neg room, ← yielded]
          exact ⟨rfl, List.forall_mem_cons.mpr ⟨Int.not_lt.mp long, fits⟩⟩

theorem batches_from_accepted {ranges batch : List ReadRange} {total : Int}
    (fits : ∀ range ∈ ranges, range.length ≤ READV_MAX_BYTES) :
    (batchesFrom batch total ranges).raised = none := by
  induction ranges generalizing batch total with
  | nil => rfl
  | cons range rest induction =>
      have later : ∀ other ∈ rest, other.length ≤ READV_MAX_BYTES := fun other member =>
        fits other (List.mem_cons_of_mem range member)
      rw [batchesFrom, if_neg (Int.not_lt.mpr (fits range List.mem_cons_self))]
      split
      · exact induction later
      · exact induction later

theorem batches_respect {ranges : List ReadRange} (accepted : (batches ranges).raised = none) :
    Respects READV_MAX_CHUNKS READV_MAX_BYTES ReadRange.length ranges (batches ranges).yielded := by
  obtain ⟨yielded, fits⟩ := batches_from_accepts accepted
  rw [batches, yielded]
  exact greedy_respects (by decide) fits

/-- Batches of ranges respect both ceilings; batches of chunks do exactly when no chunk
is past the second one by itself. -/
theorem vectors_respect_iff (ranges : List ReadRange) (chunks : List WriteChunk) :
    ((batches ranges).raised = none →
      Respects READV_MAX_CHUNKS READV_MAX_BYTES ReadRange.length ranges (batches ranges).yielded) ∧
    (Respects READV_MAX_CHUNKS READV_MAX_BYTES (fun chunk => (chunk.data.length : Int)) chunks
        (writeBatches chunks) ↔ ∀ chunk ∈ chunks, chunk.data.length ≤ READV_MAX_BYTES) := by
  constructor
  · intro accepted
    exact batches_respect accepted
  · constructor
    · intro respects chunk member
      have fits := respects.fits (fun chunk => Int.natCast_nonneg chunk.data.length) chunk member
      exact Int.ofNat_le.mp fits
    · intro fits
      exact greedy_respects (by decide) fun chunk member => Int.ofNat_le.mpr (fits chunk member)

/-- One chunk a byte past the ceiling is sent as it is. -/
theorem long_chunk_sent :
    (writeBatches [⟨0, List.replicate (READV_MAX_BYTES + 1) 0⟩]).flatten.length = 1 ∧
    ¬Respects READV_MAX_CHUNKS READV_MAX_BYTES (fun chunk => (chunk.data.length : Int))
      [⟨0, List.replicate (READV_MAX_BYTES + 1) 0⟩]
      (writeBatches [⟨0, List.replicate (READV_MAX_BYTES + 1) 0⟩]) := by
  have sent : writeBatches [⟨0, List.replicate (READV_MAX_BYTES + 1) 0⟩] =
      [[⟨0, List.replicate (READV_MAX_BYTES + 1) 0⟩]] := rfl
  constructor
  · rw [sent]
    rfl
  · intro respects
    have light := respects.light _ (by rw [sent]; exact List.mem_singleton_self _)
    rw [List.map_singleton, List.sum_singleton] at light
    simp only [List.length_replicate] at light
    omega

/-- A server that answers every element of a vector read with the bytes of its file; the
order of the segments in each answer is its own. -/
structure VectorServer where
  content : Bytes
  order : Nat → List ReadRange → List ReadRange
  complete : ∀ turn batch, (order turn batch).Perm batch

def ReadRange.within (content : Bytes) (range : ReadRange) : Bytes :=
  fetch content range.offset.toNat range.length.toNat

def ReadRange.available (content : Bytes) (range : ReadRange) : Nat :=
  min range.length.toNat (content.length - range.offset.toNat)

def ReadRange.segment (handle content : Bytes) (range : ReadRange) : ReadVSegment where
  fhandle := Writer.padded handle FHANDLE_LEN
  offset := range.offset
  data := range.within content

def readvFor (handle : Bytes) (path : UInt8) (batch : List ReadRange) : Request :=
  Request.ReadV (batch.map fun range => ⟨handle, range.offset, range.length⟩) path.toNat

/-- The data a batch is answered with; a request that cannot be written is not. -/
def VectorServer.execute (server : VectorServer) (handle : Bytes) (path : UInt8) (turn : Nat)
    (batch : List ReadRange) : Except Exception Bytes := do
  let _ ← encode (readvFor handle path batch) 0
  return ((server.order turn batch).map (ReadRange.segment handle server.content)).flatMap
    ReadVSegment.bytes

/-- `out.setdefault(segment.offset, []).append(segment.data)`, segment by segment. -/
def gather (out : Dict Int (List Bytes)) (segments : List ReadVSegment) : Dict Int (List Bytes) :=
  segments.foldl (fun out segment =>
    out.set segment.offset (out.getD segment.offset [] ++ [segment.data])) out

def readvLoop (server : VectorServer) (handle : Bytes) (path : UInt8) : Nat →
    List (List ReadRange) → Dict Int (List Bytes) → Except Exception (Dict Int (List Bytes))
  | _, [], out => .ok out
  | turn, batch :: rest, out => do
      let data ← server.execute handle path turn batch
      let segments ← parseReadv data
      readvLoop server handle path (turn + 1) rest (gather out segments)

/-- `_segment_for`: the segment, and what is left of the answers behind it. -/
def segmentFor (wanted : ReadRange) : List Bytes → Except Exception (Bytes × List Bytes)
  | [] => .error (.protocolError (str "the server left the " ++ Text.ofInt wanted.length ++
      str " bytes at offset " ++ Text.ofInt wanted.offset ++ str " out of its vector read reply"))
  | data :: rest =>
      if data.length > wanted.length then
        .error (.protocolError (str "the server answered a " ++ Text.ofInt wanted.length ++
          str " byte vector-read segment at offset " ++ Text.ofInt wanted.offset ++ str " with " ++
          Text.ofNat data.length ++ str " bytes"))
      else .ok (data, if rest.isEmpty then [data] else rest)

def inOrder : List ReadRange → Dict Int (List Bytes) → Except Exception (List Bytes)
  | [], _ => .ok []
  | wanted :: rest, out => do
      let (data, left) ← segmentFor wanted (out.getD wanted.offset [])
      let others ← inOrder rest (out.set wanted.offset left)
      return data :: others

def readv (server : VectorServer) (handle : Bytes) (path : UInt8) (wanted : List ReadRange) :
    Except Exception (List Bytes) :=
  if wanted.isEmpty then .ok []
  else do
    let generated := batches wanted
    let out ← readvLoop server handle path 0 generated.yielded ∅
    match generated.raised with
    | some error => throw error
    | none => inOrder wanted out

def VectorServer.arrivals (server : VectorServer) : Nat → List (List ReadRange) → List ReadRange
  | _, [] => []
  | turn, batch :: rest => server.order turn batch ++ server.arrivals (turn + 1) rest

def at_ (offset : Int) (ranges : List ReadRange) : List ReadRange :=
  ranges.filter (·.offset = offset)

/-- What has been collected of the ranges that arrived. -/
def Gathered (content : Bytes) (arrived : List ReadRange) (out : Dict Int (List Bytes)) : Prop :=
  ∀ offset, out.getD offset [] = (at_ offset arrived).map (ReadRange.within content)

/-- A range of a file: neither number negative, the length within the ceiling. -/
structure ReadRange.Proper (range : ReadRange) : Prop where
  offset : 0 ≤ range.offset
  length : 0 ≤ range.length
  bounded : range.length ≤ READV_MAX_BYTES

variable {server : VectorServer} {handle : Bytes} {path : UInt8}

theorem length_within (content : Bytes) (range : ReadRange) :
    (range.within content).length = range.available content :=
  length_fetch content range.offset.toNat range.length.toNat

theorem within_available (content : Bytes) (range : ReadRange) :
    range.within content = (content.drop range.offset.toNat).take (range.available content) := by
  rw [ReadRange.within, fetch, ReadRange.available, ← List.length_drop]
  by_cases whole : range.length.toNat ≤ (content.drop range.offset.toNat).length
  · rw [Nat.min_eq_left whole]
  · have past := Nat.le_of_not_le whole
    rw [Nat.min_eq_right past, List.take_length, List.take_of_length_le past]

theorem within_alike (content : Bytes) (offset : Int) (first second : List ReadRange) :
    (at_ offset first).map (ReadRange.within content) =
        (at_ offset second).map (ReadRange.within content) ↔
      (at_ offset first).map (ReadRange.available content) =
        (at_ offset second).map (ReadRange.available content) := by
  have lengths : ∀ ranges : List ReadRange, ranges.map (ReadRange.available content) =
      (ranges.map (ReadRange.within content)).map List.length := by
    intro ranges
    rw [List.map_map]
    exact List.map_congr_left fun range _ => (length_within content range).symm
  have bytes : ∀ ranges : List ReadRange, (at_ offset ranges).map (ReadRange.within content) =
      ((at_ offset ranges).map (ReadRange.available content)).map
        (fun count => (content.drop offset.toNat).take count) := by
    intro ranges
    rw [List.map_map]
    apply List.map_congr_left
    intro range member
    have here : range.offset = offset := by simpa [at_] using (List.mem_filter.mp member).2
    rw [within_available, here]
    rfl
  constructor
  · intro same
    rw [lengths, lengths, same]
  · intro same
    rw [bytes, bytes, same]

theorem gather_gathered (handle : Bytes) {content : Bytes} {arrived : List ReadRange}
    {out : Dict Int (List Bytes)} (gathered : Gathered content arrived out)
    (ranges : List ReadRange) :
    Gathered content (arrived ++ ranges)
      (gather out (ranges.map (ReadRange.segment handle content))) := by
  induction ranges generalizing arrived out with
  | nil =>
      rw [List.append_nil]
      exact gathered
  | cons range rest induction =>
      have step : Gathered content (arrived ++ [range]) (out.set range.offset
          (out.getD range.offset [] ++ [range.within content])) := by
        intro offset
        rw [Dict.getD, Dict.get_set, at_, List.filter_append, List.map_append]
        by_cases here : offset = range.offset
        · rw [if_pos here, Option.getD_some, gathered range.offset, here]
          simp [at_]
        · rw [if_neg here, ← Dict.getD, gathered offset]
          simp [at_, Ne.symm here]
      have later := induction step
      rwa [List.append_assoc, List.singleton_append] at later

theorem arrivals_perm (server : VectorServer) (turn : Nat) (parts : List (List ReadRange)) :
    (server.arrivals turn parts).Perm parts.flatten := by
  induction parts generalizing turn with
  | nil => exact List.Perm.refl []
  | cons batch rest induction =>
      rw [VectorServer.arrivals, List.flatten_cons]
      exact (server.complete turn batch).append (induction (turn + 1))

theorem chunk_fits {range : ReadRange} (proper : range.Proper) :
    (⟨handle, range.offset, range.length⟩ : ReadVChunk).Fits ↔ range.offset < 2 ^ 63 := by
  obtain ⟨offset, length⟩ := range
  obtain ⟨low, positive, bounded⟩ := proper
  dsimp only at low positive bounded ⊢
  obtain ⟨offset, rfl⟩ := Int.eq_ofNat_of_zero_le low
  obtain ⟨length, rfl⟩ := Int.eq_ofNat_of_zero_le positive
  have short : length < 2 ^ 31 := lt_of_le_of_lt (Int.ofNat_le.mp bounded) (by decide)
  have field : Writer.fits 4 (length : Int) = true := decide_eq_true short
  constructor
  · intro fits
    have wide : offset < 2 ^ 63 := of_decide_eq_true fits.2
    omega
  · intro wide
    have narrow : offset < 2 ^ 63 := by omega
    exact ⟨field, decide_eq_true narrow⟩

theorem segment_proper {content : Bytes} {range : ReadRange} (proper : range.Proper)
    (wide : range.offset < 2 ^ 63) : (range.segment handle content).Proper := by
  constructor
  · exact Writer.padded_length handle FHANDLE_LEN
  · have short : range.available content ≤ READV_MAX_BYTES := by
      have bounded := proper.bounded
      have positive := proper.length
      unfold ReadRange.available
      omega
    rw [ReadRange.segment, length_within]
    exact lt_of_le_of_lt short (by decide)
  · exact le_trans (by decide) proper.offset
  · exact wide

theorem execute_answers {batch : List ReadRange} (proper : ∀ range ∈ batch, range.Proper)
    (short : batch.length ≤ READV_MAX_CHUNKS) (turn : Nat) :
    (∃ data, server.execute handle path turn batch = .ok data) ↔
      ∀ range ∈ batch, range.offset < 2 ^ 63 := by
  have few : (batch.map fun range => (⟨handle, range.offset, range.length⟩ : ReadVChunk)).length ≤
      1024 := by
    rw [List.length_map]
    exact short
  have written := readv_encodes path.toNat_lt few 0
  have fits : (∀ chunk ∈ batch.map fun range =>
      (⟨handle, range.offset, range.length⟩ : ReadVChunk), chunk.Fits) ↔
      ∀ range ∈ batch, range.offset < 2 ^ 63 := by
    rw [List.forall_mem_map]
    exact forall₂_congr fun range member => chunk_fits (proper range member)
  rw [← fits, ← written]
  constructor
  · rintro ⟨data, done⟩
    obtain ⟨frame, encoded, -⟩ := except_returns done
    exact ⟨frame, encoded⟩
  · rintro ⟨frame, encoded⟩
    constructor
    · rw [VectorServer.execute, readvFor, encoded]
      rfl

theorem execute_parsed {batch : List ReadRange} {turn : Nat} {data : Bytes}
    (proper : ∀ range ∈ batch, range.Proper) (wide : ∀ range ∈ batch, range.offset < 2 ^ 63)
    (done : server.execute handle path turn batch = .ok data) :
    parseReadv data =
      .ok ((server.order turn batch).map (ReadRange.segment handle server.content)) := by
  obtain ⟨frame, -, made⟩ := except_returns done
  cases made
  apply parse_readv_bytes
  rw [List.forall_mem_map]
  intro range member
  have inside : range ∈ batch := (server.complete turn batch).mem_iff.mp member
  exact segment_proper (proper range inside) (wide range inside)

theorem readv_loop_gathers {parts : List (List ReadRange)} {arrived : List ReadRange}
    {out : Dict Int (List Bytes)} (proper : ∀ batch ∈ parts, ∀ range ∈ batch, range.Proper)
    (short : ∀ batch ∈ parts, batch.length ≤ READV_MAX_CHUNKS)
    (wide : ∀ batch ∈ parts, ∀ range ∈ batch, range.offset < 2 ^ 63) (turn : Nat)
    (gathered : Gathered server.content arrived out) :
    ∃ after, readvLoop server handle path turn parts out = .ok after ∧
      Gathered server.content (arrived ++ server.arrivals turn parts) after := by
  induction parts generalizing turn arrived out with
  | nil =>
      refine ⟨out, rfl, ?_⟩
      rw [VectorServer.arrivals, List.append_nil]
      exact gathered
  | cons batch rest induction =>
      rw [List.forall_mem_cons] at proper short wide
      obtain ⟨data, done⟩ := (execute_answers proper.1 short.1 turn).mpr wide.1
      have parsed := execute_parsed proper.1 wide.1 done
      have step := gather_gathered handle gathered (server.order turn batch)
      obtain ⟨after, later, all⟩ := induction proper.2 short.2 wide.2 (turn + 1) step
      refine ⟨after, ?_, ?_⟩
      · rw [readvLoop, done]
        change (parseReadv data >>= _) = _
        rw [parsed]
        exact later
      · rw [VectorServer.arrivals, ← List.append_assoc]
        exact all

theorem readv_loop_wide {parts : List (List ReadRange)} {out after : Dict Int (List Bytes)}
    {turn : Nat} (proper : ∀ batch ∈ parts, ∀ range ∈ batch, range.Proper)
    (short : ∀ batch ∈ parts, batch.length ≤ READV_MAX_CHUNKS)
    (done : readvLoop server handle path turn parts out = .ok after) :
    ∀ batch ∈ parts, ∀ range ∈ batch, range.offset < 2 ^ 63 := by
  induction parts generalizing turn out with
  | nil => exact fun _ member => absurd member List.not_mem_nil
  | cons batch rest induction =>
      rw [List.forall_mem_cons] at proper short ⊢
      rw [readvLoop] at done
      obtain ⟨data, first, done⟩ := except_returns done
      obtain ⟨segments, -, done⟩ := except_returns done
      exact ⟨(execute_answers proper.1 short.1 turn).mp ⟨data, first⟩,
        induction proper.2 short.2 done⟩

theorem segment_for_first {wanted : ReadRange} {data : Bytes} {rest : List Bytes}
    (short : ¬(data.length : Int) > wanted.length) :
    segmentFor wanted (data :: rest) = .ok (data, if rest.isEmpty then [data] else rest) := by
  rw [segmentFor, if_neg short]

theorem within_short {content : Bytes} {range : ReadRange} (proper : range.Proper) :
    ¬((range.within content).length : Int) > range.length := by
  have positive := proper.length
  rw [length_within, ReadRange.available]
  omega

/-- There is one answer for each range that asks at an offset somebody still asks at. -/
def Counted (wanted : List ReadRange) (out : Dict Int (List Bytes)) : Prop :=
  ∀ offset, at_ offset wanted ≠ [] → (out.getD offset []).length = (at_ offset wanted).length

/-- At every offset somebody still asks at, the answers are the ones asked for. -/
def Meant (content : Bytes) (wanted : List ReadRange) (out : Dict Int (List Bytes)) : Prop :=
  ∀ offset, at_ offset wanted ≠ [] →
    out.getD offset [] = (at_ offset wanted).map (ReadRange.within content)

theorem at_cons_here (wanted : ReadRange) (rest : List ReadRange) :
    at_ wanted.offset (wanted :: rest) = wanted :: at_ wanted.offset rest := by
  simp [at_]

theorem at_cons_other {wanted : ReadRange} {offset : Int} (other : offset ≠ wanted.offset)
    (rest : List ReadRange) : at_ offset (wanted :: rest) = at_ offset rest := by
  simp [at_, Ne.symm other]

section Taken

variable {content data : Bytes} {wanted : ReadRange} {rest : List ReadRange} {left : List Bytes}
  {out : Dict Int (List Bytes)}

theorem getD_set (offset : Int) (value : List Bytes) :
    (out.set wanted.offset value).getD offset [] =
      if offset = wanted.offset then value else out.getD offset [] := by
  rw [Dict.getD, Dict.get_set]
  split
  · rfl
  · rfl

theorem Counted.taken (counted : Counted (wanted :: rest) out)
    (answers : out.getD wanted.offset [] = data :: left) :
    left.length = (at_ wanted.offset rest).length ∧
      Counted rest (out.set wanted.offset (if left.isEmpty then [data] else left)) := by
  have count := counted wanted.offset (by rw [at_cons_here]; exact List.cons_ne_nil _ _)
  rw [answers, at_cons_here, List.length_cons, List.length_cons] at count
  have behind := Nat.succ.inj count
  refine ⟨behind, fun offset some => ?_⟩
  rw [getD_set]
  by_cases here : offset = wanted.offset
  · have more : left ≠ [] := by
      intro none
      rw [none] at behind
      exact some (here ▸ List.length_eq_zero_iff.mp behind.symm)
    rw [if_pos here, if_neg (by simpa using more), here]
    exact behind
  · have same := counted offset (by rw [at_cons_other here]; exact some)
    rw [if_neg here, same, at_cons_other here]

theorem meant_taken (answers : out.getD wanted.offset [] = data :: left)
    (behind : left.length = (at_ wanted.offset rest).length) :
    Meant content (wanted :: rest) out ↔ data = wanted.within content ∧
      Meant content rest (out.set wanted.offset (if left.isEmpty then [data] else left)) := by
  have here : (at_ wanted.offset (wanted :: rest)).map (ReadRange.within content) =
      wanted.within content :: (at_ wanted.offset rest).map (ReadRange.within content) := by
    rw [at_cons_here, List.map_cons]
  constructor
  · intro meant
    have first := meant wanted.offset (by rw [at_cons_here]; exact List.cons_ne_nil _ _)
    rw [answers, here] at first
    obtain ⟨head, tail⟩ := List.cons.inj first
    refine ⟨head, fun offset some => ?_⟩
    rw [getD_set]
    by_cases same : offset = wanted.offset
    · subst same
      have more : left ≠ [] := by
        rw [tail]
        simpa using some
      rw [if_pos rfl, if_neg (by simpa using more)]
      exact tail
    · rw [if_neg same, meant offset (by rw [at_cons_other same]; exact some), at_cons_other same]
  · rintro ⟨head, meant⟩ offset some
    by_cases same : offset = wanted.offset
    · subst same
      rw [answers, here, head]
      by_cases last : at_ wanted.offset rest = []
      · rw [last, List.length_nil] at behind
        rw [last, List.length_eq_zero_iff.mp behind, List.map_nil]
      · have more : left ≠ [] := by
          intro none
          rw [none] at behind
          exact last (List.length_eq_zero_iff.mp behind.symm)
        have tail := meant wanted.offset last
        rw [getD_set, if_pos rfl, if_neg (by simpa using more)] at tail
        rw [tail]
    · rw [at_cons_other same] at some ⊢
      have tail := meant offset some
      rwa [getD_set, if_neg same] at tail

end Taken

theorem in_order_iff {content : Bytes} {wanted : List ReadRange} {out : Dict Int (List Bytes)}
    (proper : ∀ range ∈ wanted, range.Proper) (counted : Counted wanted out) :
    inOrder wanted out = .ok (wanted.map (ReadRange.within content)) ↔ Meant content wanted out := by
  induction wanted generalizing out with
  | nil => exact iff_of_true rfl fun offset some => absurd rfl some
  | cons range rest induction =>
      rw [List.forall_mem_cons] at proper
      have count := counted range.offset (by rw [at_cons_here]; exact List.cons_ne_nil _ _)
      rw [at_cons_here, List.length_cons] at count
      obtain ⟨data, left, answers⟩ := List.exists_cons_of_length_eq_add_one count
      obtain ⟨behind, later⟩ := counted.taken answers
      rw [meant_taken answers behind, ← induction proper.2 later, inOrder, answers]
      by_cases long : (data.length : Int) > range.length
      · constructor
        · intro done
          rw [segmentFor, if_pos long] at done
          cases done
        · rintro ⟨same, -⟩
          exact absurd (same ▸ long) (within_short proper.1)
      · rw [segment_for_first long, List.map_cons]
        constructor
        · intro done
          obtain ⟨_, taken, done⟩ := except_returns done
          cases taken
          obtain ⟨others, tail, done⟩ := except_returns done
          obtain ⟨head, same⟩ := List.cons.inj (Except.ok.inj done)
          exact ⟨head, same ▸ tail⟩
        · rintro ⟨head, tail⟩
          change (inOrder rest _ >>= _) = _
          rw [tail, head]
          rfl

theorem readv_loops {ranges : List ReadRange} (accepted : (batches ranges).raised = none) :
    readv server handle path ranges =
      readvLoop server handle path 0 (batches ranges).yielded ∅ >>= fun out =>
        inOrder ranges out := by
  unfold readv
  by_cases none : ranges = []
  · rw [none]
    rfl
  · rw [if_neg (by simpa using none)]
    simp only [accepted]

theorem gathered_counted {content : Bytes} {arrived wanted : List ReadRange}
    {out : Dict Int (List Bytes)} (gathered : Gathered content arrived out)
    (reordered : arrived.Perm wanted) : Counted wanted out := by
  intro offset _
  rw [gathered offset, List.length_map]
  exact (reordered.filter _).length_eq

theorem gathered_meant {content : Bytes} {arrived wanted : List ReadRange}
    {out : Dict Int (List Bytes)} (gathered : Gathered content arrived out)
    (reordered : arrived.Perm wanted) :
    Meant content wanted out ↔ ∀ offset, (at_ offset arrived).map (ReadRange.available content) =
      (at_ offset wanted).map (ReadRange.available content) := by
  constructor
  · intro meant offset
    by_cases none : at_ offset wanted = []
    · have empty : (at_ offset arrived).Perm [] := none ▸ reordered.filter _
      rw [none, empty.eq_nil]
    · apply (within_alike content offset arrived wanted).mp
      rw [← gathered offset, meant offset none]
  · intro same offset _
    rw [gathered offset]
    exact (within_alike content offset arrived wanted).mpr (same offset)

/-- Every range is answered with its own bytes exactly where every offset fits its field
and the segments of each offset arrive with their lengths in the order asked. -/
theorem readv_exact_iff (server : VectorServer) (handle : Bytes) (path : UInt8)
    {ranges : List ReadRange} (proper : ∀ range ∈ ranges, range.Proper) :
    readv server handle path ranges = .ok (ranges.map (ReadRange.within server.content)) ↔
      (∀ range ∈ ranges, range.offset < 2 ^ 63) ∧
      ∀ offset, (at_ offset (server.arrivals 0 (batches ranges).yielded)).map
          (ReadRange.available server.content) =
        (at_ offset ranges).map (ReadRange.available server.content) := by
  have accepted : (batches ranges).raised = none :=
    batches_from_accepted fun range member => (proper range member).bounded
  have respects := batches_respect accepted
  have listed : ∀ range, range ∈ ranges ↔ ∃ batch ∈ (batches ranges).yielded, range ∈ batch := by
    intro range
    rw [← List.mem_flatten, respects.flat]
  have all : ∀ batch ∈ (batches ranges).yielded, ∀ range ∈ batch, range.Proper :=
    fun batch part range member => proper range ((listed range).mpr ⟨batch, part, member⟩)
  have reordered := arrivals_perm server 0 (batches ranges).yielded
  rw [respects.flat] at reordered
  have answers : (∀ range ∈ ranges, range.offset < 2 ^ 63) →
      (readv server handle path ranges = .ok (ranges.map (ReadRange.within server.content)) ↔
        ∀ offset, (at_ offset (server.arrivals 0 (batches ranges).yielded)).map
            (ReadRange.available server.content) =
          (at_ offset ranges).map (ReadRange.available server.content)) := by
    intro wide
    have fits : ∀ batch ∈ (batches ranges).yielded, ∀ range ∈ batch, range.offset < 2 ^ 63 :=
      fun batch part range member => wide range ((listed range).mpr ⟨batch, part, member⟩)
    have start : Gathered server.content [] ∅ := fun _ => rfl
    obtain ⟨out, looped, gathered⟩ : ∃ out,
        readvLoop server handle path 0 (batches ranges).yielded ∅ = .ok out ∧ _ :=
      readv_loop_gathers all respects.short fits 0 start
    rw [List.nil_append] at gathered
    rw [readv_loops accepted, looped, ← gathered_meant gathered reordered]
    exact in_order_iff proper (gathered_counted gathered reordered)
  constructor
  · intro done
    have wide : ∀ range ∈ ranges, range.offset < 2 ^ 63 := by
      intro range member
      have looped : readv server handle path ranges = _ := readv_loops accepted
      rw [done] at looped
      obtain ⟨out, looped, -⟩ := except_returns looped.symm
      obtain ⟨batch, part, within⟩ := (listed range).mp member
      exact readv_loop_wide all respects.short looped batch part range within
    exact ⟨wide, (answers wide).mp done⟩
  · rintro ⟨wide, same⟩
    exact (answers wide).mpr same

/-- A server that sends the segments of every answer last one first. -/
def backwards : VectorServer where
  content := [97, 98, 99]
  order := fun _ batch => batch.reverse
  complete := fun _ batch => batch.reverse_perm

theorem apart_read : readv backwards [] 0 [⟨0, 1⟩, ⟨1, 2⟩] = .ok [[97], [98, 99]] := by
  apply (readv_exact_iff backwards [] 0 _).mpr
  · constructor
    · decide
    · intro offset
      have arrived : backwards.arrivals 0 (batches [⟨0, 1⟩, ⟨1, 2⟩]).yielded =
          [⟨1, 2⟩, ⟨0, 1⟩] := rfl
      rw [arrived]
      by_cases first : offset = 0
      · rw [first]
        rfl
      by_cases second : offset = 1
      · rw [second]
        rfl
      · rw [at_cons_other second, at_cons_other first, at_cons_other first, at_cons_other second]
  · intro range member
    simp only [List.mem_cons, List.not_mem_nil, or_false] at member
    rcases member with rfl | rfl
    · exact ⟨by decide, by decide, by decide⟩
    · exact ⟨by decide, by decide, by decide⟩

/-- Two ranges of one offset, the longer one answered first. -/
theorem same_offset_refused :
    (∃ error, readv backwards [] 0 [⟨0, 1⟩, ⟨0, 2⟩] = .error error) ∧
    ¬∀ (server : VectorServer) (handle : Bytes) (path : UInt8) (ranges : List ReadRange),
      (∀ range ∈ ranges, range.Proper) →
        readv server handle path ranges = .ok (ranges.map (ReadRange.within server.content)) := by
  have refused : ∃ error, readv backwards [] 0 [⟨0, 1⟩, ⟨0, 2⟩] = .error error := ⟨_, rfl⟩
  constructor
  · exact refused
  · intro exact_
    obtain ⟨error, refused⟩ := refused
    have answered := exact_ backwards [] 0 [⟨0, 1⟩, ⟨0, 2⟩] (by
      intro range member
      simp only [List.mem_cons, List.not_mem_nil, or_false] at member
      rcases member with rfl | rfl
      · exact ⟨by decide, by decide, by decide⟩
      · exact ⟨by decide, by decide, by decide⟩)
    rw [refused] at answered
    cases answered

end XRootDClient.Client

import Mathlib.Algebra.BigOperators.Group.List.Basic
import Mathlib.Tactic.NormNum
import XRootDClient.Lib.Stateful
import XRootDClient.Root.Lz4

/-!
# Compressed objects

A compressed object is a run of blocks, each behind a header with the algorithm that
made it and its length either way. What is compressed is cut at `BLOCK` bytes, the
most its three-byte length can say; the length of what came out has three bytes too.

The codecs of the standard library and the optional `zstd` are given.
-/

set_option autoImplicit false

namespace XRootDClient.Root.Compression

open Lib Lib.BigEndian Lib.Extent Lib.Lempel

def p1 : Nat := 0x9E3779B185EBCA87
def p2 : Nat := 0xC2B2AE3D27D4EB4F
def p3 : Nat := 0x165667B19E3779F9
def p4 : Nat := 0x85EBCA77C2B2AE63
def p5 : Nat := 0x27D4EB2F165667C5

def m64 : Nat := 2 ^ 64 - 1

def rot (x r : Nat) : Nat := ((x <<< r) ||| (x >>> (64 - r))) &&& m64

structure Lanes where
  v1 : Nat
  v2 : Nat
  v3 : Nat
  v4 : Nat

def round (lane word : Nat) : Nat := (rot ((lane + word * p2) &&& m64) 31 * p1) &&& m64

def stripe (data : Bytes) (lanes : Lanes) (pos : Nat) : Lanes :=
  let words := ofLittle (fetch data pos 32)
  { v1 := round lanes.v1 (words &&& m64)
    v2 := round lanes.v2 ((words >>> 64) &&& m64)
    v3 := round lanes.v3 ((words >>> 128) &&& m64)
    v4 := round lanes.v4 (words >>> 192) }

def merged (acc v : Nat) : Nat := ((acc ^^^ (rot ((v * p2) &&& m64) 31 * p1)) * p1 + p4) &&& m64

def stripes (data : Bytes) : Nat × Nat :=
  if 32 ≤ data.length then
    let start : Lanes :=
      { v1 := (p1 + p2) &&& m64, v2 := p2, v3 := 0, v4 := 2 ^ 64 - p1 }
    let lanes := ((List.range (data.length / 32)).map (32 * ·)).foldl (stripe data) start
    let acc := (rot lanes.v1 1 + rot lanes.v2 7 + rot lanes.v3 12 + rot lanes.v4 18) &&& m64
    ([lanes.v1, lanes.v2, lanes.v3, lanes.v4].foldl merged acc, 32 * (data.length / 32))
  else (p5, 0)

def eights (data : Bytes) (acc pos : Nat) : Nat × Nat :=
  if pos + 8 ≤ data.length then
    let lane := ofLittle (fetch data pos 8)
    eights data
      ((rot (acc ^^^ ((rot ((lane * p2) &&& m64) 31 * p1) &&& m64)) 27 * p1 + p4) &&& m64) (pos + 8)
  else (acc, pos)
termination_by data.length - pos

def four (data : Bytes) (acc pos : Nat) : Nat × Nat :=
  if pos + 4 ≤ data.length then
    let lane := ofLittle (fetch data pos 4)
    ((rot (acc ^^^ ((lane * p1) &&& m64)) 23 * p2 + p3) &&& m64, pos + 4)
  else (acc, pos)

def ones (acc : Nat) (byte : UInt8) : Nat :=
  (rot (acc ^^^ ((byte.toNat * p5) &&& m64)) 11 * p1) &&& m64

def avalanche (acc : Nat) : Nat :=
  let acc := acc ^^^ (acc >>> 33)
  let acc := (acc * p2) &&& m64
  let acc := acc ^^^ (acc >>> 29)
  let acc := (acc * p3) &&& m64
  acc ^^^ (acc >>> 32)

def xxh64 (data : Bytes) : Nat :=
  let (acc, pos) := stripes data
  let (acc, pos) := eights data ((acc + data.length) &&& m64) pos
  let (acc, pos) := four data acc pos
  avalanche ((data.drop pos).foldl ones acc)

def header : Nat := 9

/-- `BLOCK`. -/
def blockLimit : Nat := 0xFFFFFF

inductive Algorithm
  | zlib
  | lzma
  | lz4
  | zstd
  deriving DecidableEq

def Algorithm.named (name : String) : Option Algorithm :=
  if name = "zlib" then some .zlib
  else if name = "lzma" then some .lzma
  else if name = "lz4" then some .lz4
  else if name = "zstd" then some .zstd
  else none

def Algorithm.name : Algorithm → String
  | .zlib => "zlib"
  | .lzma => "lzma"
  | .lz4 => "lz4"
  | .zstd => "zstd"

theorem Algorithm.named_name (algorithm : Algorithm) : named algorithm.name = some algorithm := by
  cases algorithm
  all_goals rfl

/-- `LEVELS`. -/
def Algorithm.level : Algorithm → Int
  | .zlib => 6
  | .lzma => 6
  | .lz4 => 1
  | .zstd => 3

/-- `TAGS`. -/
def Algorithm.tag : Algorithm → Bytes
  | .zlib => [0x5A, 0x4C]
  | .lzma => [0x58, 0x5A]
  | .lz4 => [0x4C, 0x34]
  | .zstd => [0x5A, 0x53]

def oldTag : Bytes := [0x43, 0x53]

/-- `METHODS`. -/
def Algorithm.method : Algorithm → UInt8
  | .zlib => 8
  | .lzma => 0
  | .lz4 => 1
  | .zstd => 1

/-- What is not written here. A codec that is not installed raises. -/
structure Codecs where
  zlibCompress : Bytes → Int → Except PackError Bytes
  zlibDecompress : Bytes → Except PackError Bytes
  /-- `zlib.decompress(block, -zlib.MAX_WBITS)`, or what its error says. -/
  inflate : Bytes → Except String Bytes
  lzmaCompress : Bytes → Int → Except PackError Bytes
  lzmaDecompress : Bytes → Except PackError Bytes
  zstdPack : Bytes → Int → Except PackError Bytes
  zstd : Bytes → Nat → Except PackError Bytes

/-- `value.to_bytes(width, "little")`. -/
def toBytes (width value : Nat) : Except PackError Bytes :=
  if value < 256 ^ width then .ok (little width value)
  else .error (.overflowError "int too big to convert")

def pack (codecs : Codecs) (level : Int) (chunk : Bytes) : Algorithm → Except PackError Bytes
  | .zlib => codecs.zlibCompress chunk level
  | .lzma => codecs.lzmaCompress chunk level
  | .lz4 => .ok (encode 8 (xxh64 (Lz4.lz4Pack chunk)) ++ Lz4.lz4Pack chunk)
  | .zstd => codecs.zstdPack chunk level

def frame (codecs : Codecs) (algorithm : Algorithm) (level : Int) (chunk : Bytes) :
    Except PackError Bytes := do
  let packed ← pack codecs level chunk algorithm
  let length ← toBytes 3 packed.length
  let size ← toBytes 3 chunk.length
  return algorithm.tag ++ [algorithm.method] ++ length ++ size ++ packed

/-- `range(0, len(data), BLOCK) or (0,)`. -/
def starts (length : Nat) : List Nat :=
  if length = 0 then [0]
  else (List.range ((length + blockLimit - 1) / blockLimit)).map (blockLimit * ·)

def chunks (data : Bytes) : List Bytes :=
  (starts data.length).map fun start => fetch data start blockLimit

def framed (codecs : Codecs) (algorithm : Algorithm) (level : Int) :
    List Bytes → Bytes → Except PackError Bytes
  | [], out => .ok out
  | chunk :: rest, out => do
      let block ← frame codecs algorithm level chunk
      framed codecs algorithm level rest (out ++ block)

def compress (codecs : Codecs) (data : Bytes) (algorithm : String) (level : Option Int) :
    Except PackError Bytes :=
  match Algorithm.named algorithm with
  | none => .error (.valueError algorithm)
  | some algorithm => framed codecs algorithm (level.getD algorithm.level) (chunks data) []

/-- What `_put` stores of a payload: itself, unless compressing makes it smaller. -/
def body (codecs : Codecs) (algorithm : Option String) (level : Option Int) (payload : Bytes) :
    Except PackError Bytes :=
  match algorithm with
  | none => .ok payload
  | some algorithm => do
      let squeezed ← compress codecs payload algorithm level
      return if squeezed.length < payload.length then squeezed else payload

def old (codecs : Codecs) (block : Bytes) (size : Nat) : Except PackError Bytes :=
  match codecs.inflate block with
  | .error text => .error (.formatError s!"a pre-2005 block would not inflate: {text}")
  | .ok out =>
      if out.length ≠ size then
        .error (.formatError
          s!"a pre-2005 block gave {out.length} bytes where {size} were promised")
      else .ok out

def unpack (codecs : Codecs) (tag block : Bytes) (unpacked : Nat) : Except PackError Bytes :=
  if tag = Algorithm.zlib.tag then codecs.zlibDecompress block
  else if tag = oldTag then old codecs block unpacked
  else if tag = Algorithm.lzma.tag then codecs.lzmaDecompress block
  else if tag = Algorithm.lz4.tag then Lz4.lz4 (block.drop 8) unpacked
  else if tag = Algorithm.zstd.tag then codecs.zstd block unpacked
  else .error (.unsupportedFeatureError
    ("this file is compressed with an unknown algorithm, which this reader does not " ++
      "undo; rewrite it with hadd, which will give you one of zlib, lzma, lz4 " ++
      "and zstd, and all four are read here"))

def decompressFrom (codecs : Codecs) (size : Nat) (rest out : Bytes) : Except PackError Bytes :=
  if out.length < size then
    if rest.length < header then
      .error (.formatError
        s!"the compressed object ran out after {out.length} of {size} bytes")
    else
      let packed := ofLittle (fetch rest 3 3)
      let block := fetch rest header packed
      if block.length ≠ packed then
        .error (.formatError
          s!"a block says it is {packed} bytes and only {block.length} are here")
      else
        match unpack codecs (rest.take 2) block (ofLittle (fetch rest 6 3)) with
        | .error raised => .error raised
        | .ok piece => decompressFrom codecs size (rest.drop (header + packed)) (out ++ piece)
  else if out.length ≠ size then
    .error (.formatError s!"decompressing gave {out.length} bytes where {size} were promised")
  else .ok out
termination_by rest.length
decreasing_by
  rw [List.length_drop]
  simp only [header] at *
  omega

def decompress (codecs : Codecs) (data : Bytes) (size : Nat) : Except PackError Bytes :=
  decompressFrom codecs size data []

def rootCodecs : Codecs where
  zlibCompress chunk level :=
    if chunk = [0x52, 0x4F, 0x4F, 0x54] ∧ level = 6 then
      .ok [0x78, 0x9C, 0x0B, 0xF2, 0xF7, 0x0F, 0x01, 0x00, 0x03, 0x2B, 0x01, 0x45]
    else .error (.codecError "not one of the samples")
  zlibDecompress block :=
    if block = [0x78, 0x9C, 0x0B, 0xF2, 0xF7, 0x0F, 0x01, 0x00, 0x03, 0x2B, 0x01, 0x45] then
      .ok [0x52, 0x4F, 0x4F, 0x54]
    else .error (.codecError "not one of the samples")
  inflate _ := .error "not one of the samples"
  lzmaCompress _ _ := .error (.codecError "not one of the samples")
  lzmaDecompress _ := .error (.codecError "not one of the samples")
  zstdPack _ _ := .error (.unsupportedFeatureError
    ("writing zstd needs Python 3.14 or the zstandard package: " ++
      "pip install zstandard, or write with zlib, lzma or lz4 instead"))
  zstd _ _ := .error (.unsupportedFeatureError
    ("this file is zstd-compressed, which needs Python 3.14 or the zstandard " ++
      "package: pip install zstandard, or ask for the file written another way"))

structure Codecs.Inverts (codecs : Codecs) : Prop where
  zlib : ∀ {chunk packed : Bytes} {level : Int},
    codecs.zlibCompress chunk level = .ok packed → codecs.zlibDecompress packed = .ok chunk
  lzma : ∀ {chunk packed : Bytes} {level : Int},
    codecs.lzmaCompress chunk level = .ok packed → codecs.lzmaDecompress packed = .ok chunk
  zstd : ∀ {chunk packed : Bytes} {level : Int},
    codecs.zstdPack chunk level = .ok packed → codecs.zstd packed chunk.length = .ok chunk

theorem flatten_cuts (data : Bytes) (size count : Nat) :
    ((List.range count).map fun index => fetch data (size * index) size).flatten =
      data.take (size * count) := by
  induction count with
  | zero => simp
  | succ count induction =>
      rw [List.range_succ, List.map_append, List.flatten_append, induction, Nat.mul_succ, List.take_add]
      simp [fetch]

theorem flatten_chunks (data : Bytes) : (chunks data).flatten = data := by
  by_cases empty : data.length = 0
  · rw [List.length_eq_zero_iff.mp empty]
    rfl
  · have enough : data.length ≤ blockLimit * ((data.length + blockLimit - 1) / blockLimit) := by
      simp only [blockLimit]
      omega
    rw [chunks, starts, if_neg empty, List.map_map]
    exact (flatten_cuts data blockLimit _).trans (List.take_of_length_le enough)

theorem chunks_full {data chunk : Bytes} (some : data ≠ []) (member : chunk ∈ chunks data) :
    chunk ≠ [] := by
  have size : data.length ≠ 0 := fun empty => some (List.length_eq_zero_iff.mp empty)
  rw [chunks, starts, if_neg size, List.map_map] at member
  obtain ⟨index, listed, rfl⟩ := List.mem_map.mp member
  have below := List.mem_range.mp listed
  have long : 0 < (fetch data (blockLimit * index) blockLimit).length := by
    rw [length_fetch]
    simp only [blockLimit] at *
    omega
  exact List.length_pos_iff.mp long

theorem chunks_short {data chunk : Bytes} (member : chunk ∈ chunks data) :
    chunk.length ≤ blockLimit := by
  obtain ⟨start, listed, rfl⟩ := List.mem_map.mp member
  rw [length_fetch]
  exact Nat.min_le_left _ _

theorem chunks_one {data : Bytes} (size : data.length = blockLimit) : chunks data = [data] := by
  have one : starts blockLimit = [0] := rfl
  rw [chunks, size, one, List.map_singleton, fetch, List.drop_zero,
    List.take_of_length_le (Nat.le_of_eq size)]

theorem to_bytes_ok {width value : Nat} {field : Bytes} (made : toBytes width value = .ok field) :
    value < 256 ^ width ∧ field = little width value := by
  rw [toBytes] at made
  split at made
  case isTrue fits =>
      cases made
      exact ⟨fits, rfl⟩
  case isFalse large => cases made

section Frames

variable {codecs : Codecs} {algorithm : Algorithm} {level : Int}

theorem frame_ok {chunk block : Bytes} (made : frame codecs algorithm level chunk = .ok block) :
    ∃ packed, pack codecs level chunk algorithm = .ok packed ∧ packed.length < 256 ^ 3 ∧
      chunk.length < 256 ^ 3 ∧
      block = algorithm.tag ++ [algorithm.method] ++ little 3 packed.length ++
        little 3 chunk.length ++ packed := by
  unfold frame at made
  obtain ⟨packed, packs, made⟩ := Stateful.except_returns made
  obtain ⟨length, lengthMade, made⟩ := Stateful.except_returns made
  obtain ⟨size, sizeMade, made⟩ := Stateful.except_returns made
  obtain ⟨short, rfl⟩ := to_bytes_ok lengthMade
  obtain ⟨small, rfl⟩ := to_bytes_ok sizeMade
  cases made
  exact ⟨packed, packs, short, small, rfl⟩

theorem tag_two (algorithm : Algorithm) : ∃ first second, algorithm.tag = [first, second] := by
  cases algorithm
  all_goals exact ⟨_, _, rfl⟩

theorem little_three (value : Nat) :
    ∃ first second third, little 3 value = [first, second, third] := ⟨_, _, _, rfl⟩

theorem unpack_pack (inverts : codecs.Inverts) {chunk packed : Bytes}
    (packs : pack codecs level chunk algorithm = .ok packed) :
    unpack codecs algorithm.tag packed chunk.length = .ok chunk := by
  cases algorithm with
  | zlib => exact inverts.zlib packs
  | lzma => exact inverts.lzma packs
  | lz4 =>
      cases packs
      obtain ⟨sequences, last, _, _, read⟩ := Lz4.lz4_pack_read chunk
      have behind : (encode 8 (xxh64 (Lz4.lz4Pack chunk)) ++ Lz4.lz4Pack chunk).drop 8 =
          Lz4.lz4Pack chunk := List.drop_left' (encode_length 8 _)
      rw [← read, ← behind]
      rfl
  | zstd => exact inverts.zstd packs

theorem decompress_frame (inverts : codecs.Inverts) {chunk block : Bytes}
    (made : frame codecs algorithm level chunk = .ok block) {size : Nat} {out : Bytes}
    (more : out.length < size) (rest : Bytes) :
    decompressFrom codecs size (block ++ rest) out =
      decompressFrom codecs size rest (out ++ chunk) := by
  obtain ⟨packed, packs, short, small, rfl⟩ := frame_ok made
  have undone := unpack_pack inverts packs
  obtain ⟨first, second, tagged⟩ := tag_two algorithm
  obtain ⟨low, middle, high, length⟩ := little_three packed.length
  obtain ⟨low', middle', high', sized⟩ := little_three chunk.length
  have lengthRead : ofLittle [low, middle, high] = packed.length := by
    rw [← length, of_little short]
  have sizeRead : ofLittle [low', middle', high'] = chunk.length := by
    rw [← sized, of_little small]
  rw [tagged] at undone
  have behind : ([first, second, algorithm.method, low, middle, high, low', middle', high'] ++
      (packed ++ rest)).drop (9 + packed.length) = rest := by
    rw [Nat.add_comm]
    exact List.drop_left
  rw [decompressFrom, if_pos more, tagged, length, sized, if_neg (by simp [header])]
  simp only [List.cons_append, List.nil_append] at behind
  simp [fetch, header, lengthRead, sizeRead, undone, behind]

theorem decompress_framed (inverts : codecs.Inverts) {list : List Bytes}
    (full : ∀ chunk ∈ list, chunk ≠ []) {out whole : Bytes}
    (made : framed codecs algorithm level list out = .ok whole) :
    ∃ tail, whole = out ++ tail ∧ ∀ front : Bytes,
      decompressFrom codecs (front.length + list.flatten.length) tail front =
        .ok (front ++ list.flatten) := by
  induction list generalizing out with
  | nil =>
      cases made
      refine ⟨[], (List.append_nil _).symm, ?_⟩
      intro front
      rw [decompressFrom, if_neg (by simp), if_neg (by simp)]
      simp
  | cons chunk rest induction =>
      obtain ⟨block, here, made⟩ := Stateful.except_returns made
      obtain ⟨tail, rfl, read⟩ :=
        induction (fun other member => full other (List.mem_cons_of_mem _ member)) made
      refine ⟨block ++ tail, List.append_assoc out block tail, ?_⟩
      intro front
      have some : 0 < chunk.length := List.length_pos_iff.mpr (full chunk List.mem_cons_self)
      have more : front.length < front.length + (chunk :: rest).flatten.length := by
        rw [List.flatten_cons, List.length_append]
        omega
      have sizes : front.length + (chunk :: rest).flatten.length =
          (front ++ chunk).length + rest.flatten.length := by
        rw [List.flatten_cons, List.length_append, List.length_append, Nat.add_assoc]
      rw [decompress_frame inverts here more, sizes, read (front ++ chunk), List.flatten_cons,
        List.append_assoc]

end Frames

theorem decompress_compress {codecs : Codecs} (inverts : codecs.Inverts) {data whole : Bytes}
    {algorithm : String} {level : Option Int}
    (made : compress codecs data algorithm level = .ok whole) :
    decompress codecs whole data.length = .ok data := by
  by_cases empty : data = []
  · rw [empty, decompress, decompressFrom]
    rfl
  · rw [compress] at made
    split at made
    case h_1 => cases made
    case h_2 algorithm named =>
        obtain ⟨tail, rfl, read⟩ := decompress_framed inverts (fun _ => chunks_full empty) made
        have whole := read []
        rw [flatten_chunks] at whole
        rw [decompress]
        simpa using whole

/-- Packing is undone: an LZ4 block is one the format allows and is read back, and so is
everything that `compress` returns. -/
theorem compression_undone (codecs : Codecs) (inverts : codecs.Inverts) (data : Bytes) :
    (Lz4.lz4 (Lz4.lz4Pack data) data.length = .ok data ∧
      ∃ sequences last, Lz4.parse (Lz4.lz4Pack data) = some (sequences, last) ∧
        Lz4.Obeys data.length sequences last) ∧
    ∀ (algorithm : String) (level : Option Int) (whole : Bytes),
      compress codecs data algorithm level = .ok whole →
        decompress codecs whole data.length = .ok data := by
  refine ⟨?_, fun algorithm level whole made => decompress_compress inverts made⟩
  obtain ⟨sequences, last, parsed, obeys, read⟩ := Lz4.lz4_pack_read data
  exact ⟨read, sequences, last, parsed, obeys⟩

theorem root_codecs_invert : rootCodecs.Inverts where
  zlib := by
    intro chunk packed level made
    simp only [rootCodecs] at made ⊢
    split at made
    case isTrue sample =>
        cases made
        rw [sample.1]
        rfl
    case isFalse => cases made
  lzma made := by cases made
  zstd made := by cases made

theorem root_bytes_undone :
    decompress rootCodecs ([0x5A, 0x4C, 8, 12, 0, 0, 4, 0, 0] ++
      [0x78, 0x9C, 0x0B, 0xF2, 0xF7, 0x0F, 0x01, 0x00, 0x03, 0x2B, 0x01, 0x45]) 4 =
        .ok [0x52, 0x4F, 0x4F, 0x54] :=
  (compression_undone rootCodecs root_codecs_invert [0x52, 0x4F, 0x4F, 0x54]).2 "zlib" none _ (by rfl)

/-- What a codec adds at its worst, as its documentation bounds it. -/
def slack : Algorithm → Nat → Nat
  | .zlib, length => length / 2 ^ 12 + length / 2 ^ 14 + length / 2 ^ 25 + 13
  | .lzma, length => length / 2 ^ 14 + 256
  | .lz4, length => length / 255 + 10
  | .zstd, length => length / 2 ^ 8 + 64

/-- A codec takes every chunk at its own level, and adds no more than it may. -/
def Codecs.Documented (codecs : Codecs) (algorithm : Algorithm) : Prop :=
  ∀ chunk, ∃ packed, pack codecs algorithm.level chunk algorithm = .ok packed ∧
    packed.length ≤ chunk.length + slack algorithm chunk.length

theorem lz4_documented (codecs : Codecs) : codecs.Documented .lz4 := by
  intro chunk
  refine ⟨_, rfl, ?_⟩
  have packed := Lz4.lz4_pack_length chunk
  rw [List.length_append, encode_length, slack]
  omega

/-- Compressing does not fail on size, and the writer can store the data. -/
structure Storable (codecs : Codecs) (algorithm : Algorithm) (data : Bytes) : Prop where
  lengths : ∀ chunk ∈ chunks data, chunk.length < 256 ^ 3 ∧
    ∀ packed, pack codecs algorithm.level chunk algorithm = .ok packed → packed.length < 256 ^ 3
  returns : ∃ whole, compress codecs data algorithm.name none = .ok whole
  stores : ∃ stored, body codecs (some algorithm.name) none data = .ok stored ∧
    (stored = data ∨ stored.length < data.length)

section Sizes

variable {codecs : Codecs} {algorithm : Algorithm}

theorem compress_named (data : Bytes) :
    compress codecs data algorithm.name none =
      framed codecs algorithm algorithm.level (chunks data) [] := by
  rw [compress, Algorithm.named_name]
  rfl

theorem to_bytes_fits {width value : Nat} (fits : value < 256 ^ width) :
    toBytes width value = .ok (little width value) := if_pos fits

theorem frame_returns {level : Int} {chunk packed : Bytes}
    (packs : pack codecs level chunk algorithm = .ok packed) (short : packed.length < 256 ^ 3)
    (small : chunk.length < 256 ^ 3) : ∃ block, frame codecs algorithm level chunk = .ok block := by
  rw [frame, packs]
  simp only [bind, Except.bind]
  rw [to_bytes_fits short, to_bytes_fits small]
  exact ⟨_, rfl⟩

theorem framed_returns {level : Int} {list : List Bytes}
    (returns : ∀ chunk ∈ list, ∃ block, frame codecs algorithm level chunk = .ok block) (out : Bytes) :
    ∃ whole, framed codecs algorithm level list out = .ok whole := by
  induction list generalizing out with
  | nil => exact ⟨out, rfl⟩
  | cons chunk rest induction =>
      obtain ⟨block, here⟩ := returns chunk List.mem_cons_self
      obtain ⟨whole, further⟩ :=
        induction (fun other member => returns other (List.mem_cons_of_mem _ member)) (out ++ block)
      refine ⟨whole, ?_⟩
      rw [framed, here]
      exact further

theorem chunks_fit {data chunk : Bytes} (member : chunk ∈ chunks data) : chunk.length < 256 ^ 3 :=
  Nat.lt_of_le_of_lt (chunks_short member) (by decide)

theorem body_stores {data whole : Bytes} (made : compress codecs data algorithm.name none = .ok whole) :
    ∃ stored, body codecs (some algorithm.name) none data = .ok stored ∧
      (stored = data ∨ stored.length < data.length) := by
  rw [body, made]
  by_cases smaller : whole.length < data.length
  · exact ⟨whole, congrArg Except.ok (if_pos smaller), .inr smaller⟩
  · exact ⟨data, congrArg Except.ok (if_neg smaller), .inl rfl⟩

end Sizes

theorem storable_of_short {codecs : Codecs} {algorithm : Algorithm}
    (documented : codecs.Documented algorithm) {data : Bytes}
    (below : ∀ chunk ∈ chunks data, ∀ packed,
      pack codecs algorithm.level chunk algorithm = .ok packed → packed.length < 256 ^ 3) :
    Storable codecs algorithm data := by
  have returns : ∃ whole, compress codecs data algorithm.name none = .ok whole := by
    rw [compress_named]
    apply framed_returns
    intro chunk member
    obtain ⟨packed, packs, _⟩ := documented chunk
    exact frame_returns packs (below chunk member packed packs) (chunks_fit member)
  obtain ⟨whole, made⟩ := returns
  exact ⟨fun chunk member => ⟨chunks_fit member, below chunk member⟩, ⟨whole, made⟩, body_stores made⟩

/-- Data is compressed, or stored as it is, exactly when its blocks that come near the
limit are packed below it. -/
theorem storable_iff (codecs : Codecs) (algorithm : Algorithm)
    (documented : algorithm ≠ .lz4 → codecs.Documented algorithm) (data : Bytes) :
    Storable codecs algorithm data ↔
      ∀ block ∈ chunks data, 256 ^ 3 ≤ block.length + slack algorithm block.length →
        ∀ packed, pack codecs algorithm.level block algorithm = .ok packed →
          packed.length < 256 ^ 3 := by
  constructor
  · intro storable block member near
    exact (storable.lengths block member).2
  · intro brought
    have bounded : codecs.Documented algorithm := by
      by_cases own : algorithm = .lz4
      · rw [own]
        exact lz4_documented codecs
      · exact documented own
    -- A block that does not come near the limit is below it whatever it holds.
    have below : ∀ chunk ∈ chunks data, ∀ packed,
        pack codecs algorithm.level chunk algorithm = .ok packed → packed.length < 256 ^ 3 := by
      intro chunk member packed packs
      obtain ⟨other, same, short⟩ := bounded chunk
      rw [packs] at same
      cases same
      by_cases near : 256 ^ 3 ≤ chunk.length + slack algorithm chunk.length
      · exact brought chunk member near packed packs
      · omega
    exact storable_of_short bounded below

theorem short_storable (codecs : Codecs) (algorithm : Algorithm)
    (documented : codecs.Documented algorithm) (data : Bytes)
    (short : ∀ block ∈ chunks data, block.length + slack algorithm block.length < 256 ^ 3) :
    Storable codecs algorithm data := by
  apply storable_of_short documented
  intro block member packed packs
  obtain ⟨other, same, few⟩ := documented block
  rw [packs] at same
  cases same
  exact Nat.lt_of_le_of_lt few (short block member)

def adler32 (data : Bytes) : Nat :=
  let (low, high) := data.foldl (fun (low, high) byte =>
    ((low + byte.toNat) % 65521, (high + low + byte.toNat) % 65521)) (1, 0)
  high * 65536 + low

def storedBlock (chunk : Bytes) (count index : Nat) : Bytes :=
  let part := fetch chunk (65535 * index) 65535
  [if index + 1 = count then 1 else 0] ++ little 2 part.length ++ little 2 (65535 - part.length) ++ part

def stored (chunk : Bytes) : Bytes :=
  let count := chunk.length / 65535 + 1
  [0x78, 0x9C] ++ (List.range count).flatMap (storedBlock chunk count) ++ encode 4 (adler32 chunk)

def zeros : Bytes := List.replicate blockLimit 0

def zerosPacked : Bytes :=
  ([(1, 0x78), (1, 0x9C), (1, 0xEC), (1, 0xC1), (2, 0x01), (3, 0x00), (1, 0x80), (1, 0x90), (1,
  0xFE), (1, 0xAF), (1, 0xEE), (1, 0x08), (1, 0x0A), (4094, 0x00), (1, 0x80), (1, 0xD9), (1,
  0x83), (1, 0x03), (1, 0x01), (4, 0x00), (1, 0x20), (1, 0xFF), (1, 0xD7), (1, 0x46), (1,
  0x50), (4095, 0x55), (1, 0x61), (1, 0x0F), (1, 0x0E), (1, 0x04), (4, 0x00), (1, 0x80), (1,
  0xFC), (1, 0x5F), (1, 0x1B), (1, 0x41), (4095, 0x55), (1, 0xA5), (1, 0x3D), (1, 0x38), (1,
  0x20), (4, 0x00), (1, 0x10), (1, 0xF2), (1, 0xFF), (1, 0x75), (1, 0x43), (1, 0x02), (3969,
  0x00), (1, 0xC0), (1, 0x54), (1, 0x0E), (1, 0xFF), (1, 0x00), (1, 0x01)] : List (Nat × UInt8)).flatMap
    fun run => List.replicate run.1 run.2

def zlibPack (chunk : Bytes) : Bytes := if chunk = zeros then zerosPacked else stored chunk

/-- Codecs whose zlib compresses the zeros, and stores everything else. -/
def zlibCodecs : Codecs := { rootCodecs with zlibCompress := fun chunk _ => .ok (zlibPack chunk) }

theorem pack_zlib (level : Int) (chunk : Bytes) :
    pack zlibCodecs level chunk .zlib = .ok (zlibPack chunk) := rfl

theorem zeros_length : zeros.length = blockLimit := List.length_replicate

theorem zeros_packed_length : zerosPacked.length = 16316 := by
  rw [zerosPacked, List.length_flatMap]
  simp only [List.length_replicate]
  rfl

theorem stored_block_length (chunk : Bytes) (count index : Nat) :
    (storedBlock chunk count index).length = 5 + (fetch chunk (65535 * index) 65535).length := by
  rw [storedBlock, List.length_append, List.length_append, List.length_append, little_length,
    little_length]
  rfl

theorem stored_length (chunk : Bytes) :
    (stored chunk).length = chunk.length + 5 * (chunk.length / 65535) + 11 := by
  have whole := congrArg List.length (flatten_cuts chunk 65535 (chunk.length / 65535 + 1))
  rw [List.take_of_length_le (by omega), List.length_flatten, List.map_map] at whole
  have blocks : (((List.range (chunk.length / 65535 + 1)).flatMap
      (storedBlock chunk (chunk.length / 65535 + 1))).length =
        5 * (chunk.length / 65535 + 1) + chunk.length) := by
    have total : ((List.range (chunk.length / 65535 + 1)).map fun index =>
        (fetch chunk (65535 * index) 65535).length).sum = chunk.length := whole
    rw [List.length_flatMap]
    simp only [stored_block_length]
    rw [List.sum_map_add, total, List.map_const', List.sum_replicate_nat, List.length_range, Nat.mul_comm]
  rw [stored, List.length_append, List.length_append, blocks, encode_length]
  simp only [List.length_cons, List.length_nil]
  omega

theorem zlib_documented : zlibCodecs.Documented .zlib := by
  intro chunk
  refine ⟨_, pack_zlib _ chunk, ?_⟩
  unfold zlibPack
  split_ifs with same
  · rw [zeros_packed_length, same, zeros_length, blockLimit]
    omega
  · rw [stored_length, slack]
    omega

theorem zeros_storable : Storable zlibCodecs .zlib zeros := by
  refine (storable_iff zlibCodecs .zlib (fun _ => zlib_documented) zeros).mpr ?_
  intro block member near packed packs
  have one : chunks zeros = [zeros] := chunks_one zeros_length
  rw [one, List.mem_singleton] at member
  rw [pack_zlib, member, zlibPack, if_pos rfl, Except.ok.injEq] at packs
  rw [← packs, zeros_packed_length]
  decide

/-- The bytes of a counter in base 64, the place of each digit in its upper bits, so
that any four in a row tell where they stand. -/
def countedByte (index : Nat) : UInt8 :=
  UInt8.ofNat (index % 4 * 64 + index / 4 / 64 ^ (index % 4) % 64)

def counted : Bytes := (List.range blockLimit).map countedByte

theorem counted_length : counted.length = blockLimit := by
  rw [counted, List.length_map, List.length_range]

theorem counted_get {index : Nat} (below : index < blockLimit) :
    counted[index]? = some (countedByte index) := by
  rw [counted, List.getElem?_map, List.getElem?_range below]
  rfl

theorem counted_byte_nat (index : Nat) :
    (countedByte index).toNat = index % 4 * 64 + index / 4 / 64 ^ (index % 4) % 64 := by
  rw [countedByte, UInt8.toNat_ofNat']
  omega

theorem counted_byte_value (quotient digit : Nat) :
    (countedByte (4 * quotient + digit)).toNat =
      digit % 4 * 64 + (quotient + digit / 4) / 64 ^ (digit % 4) % 64 := by
  rw [counted_byte_nat, Nat.mul_add_mod, Nat.mul_add_div (by decide)]

theorem counted_byte_tells {first second : Nat} (low : first < 2 ^ 24) (high : second < 2 ^ 24)
    (same : ∀ index < 4, countedByte (first + index) = countedByte (second + index)) :
    first = second := by
  have place : second % 4 = first % 4 := by
    have values := congrArg UInt8.toNat (same 0 (by decide))
    rw [counted_byte_nat, counted_byte_nat, Nat.add_zero, Nat.add_zero] at values
    omega
  obtain ⟨quotient, firstIs⟩ : ∃ quotient, first = 4 * quotient + first % 4 := ⟨first / 4, by omega⟩
  obtain ⟨other, secondIs⟩ : ∃ other, second = 4 * other + first % 4 := ⟨second / 4, by omega⟩
  have rest : first % 4 < 4 := Nat.mod_lt _ (by decide)
  have values : ∀ index < 4,
      (first % 4 + index) % 4 * 64 +
          (quotient + (first % 4 + index) / 4) / 64 ^ ((first % 4 + index) % 4) % 64 =
        (first % 4 + index) % 4 * 64 +
          (other + (first % 4 + index) / 4) / 64 ^ ((first % 4 + index) % 4) % 64 := by
    intro index below
    rw [← counted_byte_value, ← counted_byte_value, ← Nat.add_assoc, ← Nat.add_assoc, ← firstIs,
      ← secondIs, same index below]
  have zero := values 0 (by decide)
  have one := values 1 (by decide)
  have two := values 2 (by decide)
  have three := values 3 (by decide)
  generalize first % 4 = digit at *
  have digits : digit = 0 ∨ digit = 1 ∨ digit = 2 ∨ digit = 3 := by omega
  rcases digits with rfl | rfl | rfl | rfl
  all_goals
    norm_num at zero one two three
    omega

theorem counted_unlike : Lz4.Unlike counted := by
  intro earlier later ahead _ inside same
  rw [counted_length] at inside
  have agrees := Lz4.fetch_agrees same
  have limit : blockLimit < 2 ^ 24 := by decide
  have equal : earlier = later := by
    apply counted_byte_tells (by omega) (by omega)
    intro index below
    have here := agrees index below
    rw [counted_get (by omega), counted_get (by omega)] at here
    exact Option.some.inj here
  omega

theorem counted_long :
    256 ^ 3 ≤ (encode 8 (xxh64 (Lz4.lz4Pack counted)) ++ Lz4.lz4Pack counted).length := by
  have size := counted_length
  have packed := Lz4.lz4_pack_unlike counted_unlike (by rw [size]; decide)
  rw [size] at packed
  rw [List.length_append, encode_length, packed, blockLimit]
  omega

theorem compress_overflows {codecs : Codecs} {algorithm : Algorithm} {data packed : Bytes}
    (one : chunks data = [data])
    (packs : pack codecs algorithm.level data algorithm = .ok packed)
    (large : 256 ^ 3 ≤ packed.length) :
    compress codecs data algorithm.name none = .error (.overflowError "int too big to convert") := by
  have field : toBytes 3 packed.length = .error (.overflowError "int too big to convert") :=
    if_neg (Nat.not_lt.mpr large)
  rw [compress_named, one, framed, frame, packs]
  simp only [bind, Except.bind, field]

/-- Sixteen megabytes in which no four bytes come again cannot be written. -/
theorem counted_overflows :
    compress rootCodecs counted Algorithm.lz4.name none =
        .error (.overflowError "int too big to convert") ∧
      ¬ Storable rootCodecs .lz4 counted := by
  have fails := @compress_overflows rootCodecs .lz4 counted _ (chunks_one counted_length) rfl counted_long
  refine ⟨fails, ?_⟩
  intro storable
  obtain ⟨whole, made⟩ := storable.returns
  rw [fails] at made
  cases made

end XRootDClient.Root.Compression

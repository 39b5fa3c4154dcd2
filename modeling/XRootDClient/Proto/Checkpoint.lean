import XRootDClient.Lib.Stateful
import XRootDClient.Proto.Requests

/-!
# Requests inside a checkpoint

A write or a truncation that belongs to an open checkpoint is sent inside a
`kXR_chkpoint`: its header is the payload, and its data follows the frame uncounted. The
server reads as many bytes behind the frame as the embedded header declares.
-/

set_option autoImplicit false

namespace XRootDClient.Proto

open Lib Lib.BigEndian Lib.Stateful

def requestNames : List (Nat × String) :=
  [(3000, "kXR_1stRequest"), (3001, "kXR_query"), (3002, "kXR_chmod"), (3003, "kXR_close"),
   (3004, "kXR_dirlist"), (3005, "kXR_gpfile"), (3006, "kXR_protocol"), (3007, "kXR_login"),
   (3008, "kXR_mkdir"), (3009, "kXR_mv"), (3010, "kXR_open"), (3011, "kXR_ping"),
   (3012, "kXR_chkpoint"), (3013, "kXR_read"), (3014, "kXR_rm"), (3015, "kXR_rmdir"),
   (3016, "kXR_sync"), (3017, "kXR_stat"), (3018, "kXR_set"), (3019, "kXR_write"),
   (3020, "kXR_fattr"), (3021, "kXR_prepare"), (3022, "kXR_statx"), (3023, "kXR_endsess"),
   (3024, "kXR_bind"), (3025, "kXR_readv"), (3026, "kXR_pgwrite"), (3027, "kXR_locate"),
   (3028, "kXR_truncate"), (3029, "kXR_sigver"), (3030, "kXR_pgread"), (3031, "kXR_writev"),
   (3032, "kXR_clone"), (3501, "kXR_symlink"), (3502, "kXR_readlink"), (3503, "kXR_link")]

def requestName (opcode : Nat) : Text :=
  match requestNames.lookup opcode with
  | some name => str name
  | none => str "kXR_unknown(" ++ Text.ofNat opcode ++ str ")"

namespace Request

/-- `kXR_truncate`: by path, or by handle when there is one. -/
def Truncate (path : Text) (size : Int) (fhandle : Bytes) : Request where
  typeName := str "Truncate"
  opcode := kXR_truncate
  params := do
    return Writer.padded fhandle 4 ++ (← Writer.i64 size) ++ Writer.zeros 4
  payload := .ok (Text.encodeUtf8 path)

/-- `kXR_chkpoint`: transactional write checkpointing. -/
def ChkPoint (fhandle : Bytes) (subcode : Nat) (data tail : Bytes) : Request where
  typeName := str "ChkPoint"
  opcode := kXR_chkpoint
  params := do
    return Writer.padded fhandle 4 ++ Writer.zeros 11 ++ (← Writer.u8 subcode)
  payload := .ok data
  trailer := tail

def EXECUTABLE : List Nat := [kXR_write, kXR_pgwrite, kXR_truncate]

def ChkPoint.execute (fhandle : Bytes) (inner : Request) : Except Exception Request := do
  if inner.opcode ∉ EXECUTABLE then
    throw (.protocolError (str "a checkpoint can execute a write or a truncate, not " ++
      requestName inner.opcode))
  let frame ← encode inner 0
  return ChkPoint fhandle kXR_ckpXeq (frame.take REQUEST_HDRLEN) (frame.drop REQUEST_HDRLEN)

end Request

structure Taken where
  opcode : Nat
  params : Bytes
  data : Bytes
  deriving DecidableEq

/-- `_REQ.unpack`: the opcode, the parameters and the length of the data. -/
def unpackRequest (header : Bytes) : Nat × Bytes × Nat :=
  (decode ((header.drop 2).take 2), (header.drop 4).take 16, decode ((header.drop 20).take 4))

/-- `_data_path`: the path the data of a request travels on. -/
def dataPath (opcode : Nat) (params : Bytes) : Nat :=
  if opcode ∈ [kXR_write, kXR_pgwrite] then ((params.drop 12).headD 0).toNat else 0

/-- One turn of a connection's loop: a request off its stream, the data off the bound path
it names. Nothing where the stream ends before a header does. -/
def takeRequest (paths : Nat → Option Bytes) (stream : Bytes) : Option (Taken × Bytes) :=
  if stream.length < REQUEST_HDRLEN then none
  else
    let (opcode, params, dlen) := unpackRequest (stream.take REQUEST_HDRLEN)
    let behind := stream.drop REQUEST_HDRLEN
    match paths (dataPath opcode params) with
    | some path => some (⟨opcode, params, path.take dlen⟩, behind)
    | none => some (⟨opcode, params, behind.take dlen⟩, behind.drop dlen)

def CHECKPOINT_CAPACITY : Nat := 2 ^ 20

inductive Execution
  | error (code : Int) (message : Text)
  | run (taken : Taken)
  deriving DecidableEq

/-- `_checkpoint_exec`: what is run, how much of the checkpoint is used, and what is left
on the stream. -/
def checkpointExec (used : Nat) (body stream : Bytes) : Execution × Nat × Bytes :=
  if body.length ≠ REQUEST_HDRLEN then
    (.error 3000 (str "checkpoint payload is not one request header"), used, stream)
  else
    let (opcode, params, dlen) := unpackRequest body
    let data := stream.take dlen
    let rest := stream.drop dlen
    if opcode ∉ [kXR_write, kXR_pgwrite, kXR_truncate] then
      (.error 3013 (requestName opcode ++ str " is not checkpointable"), used, rest)
    else if used + dlen > CHECKPOINT_CAPACITY then
      (.error 3009 (str "checkpoint is full"), used + dlen, rest)
    else (.run ⟨opcode, params, data⟩, used + dlen, rest)

/-- A `kXR_ckpXeq` taken off the stream, where the checkpoint of its handle is open. -/
def serveCheckpoint (paths : Nat → Option Bytes) (used : Nat) (stream : Bytes) :
    Option (Execution × Nat × Bytes) :=
  match takeRequest paths stream with
  | some (request, rest) =>
      if request.opcode = kXR_chkpoint ∧ request.params.getLast? = some (UInt8.ofNat kXR_ckpXeq) then
        some (checkpointExec used request.data rest)
      else none
  | none => none

inductive Journalled
  | write (fhandle : Bytes) (offset : Int) (data : Bytes) (pathid : Nat)
  | pgwrite (fhandle : Bytes) (offset : Int) (data : Bytes) (retry : Bool) (pathid : Nat)
  | truncate (path : Text) (size : Int) (fhandle : Bytes)

namespace Journalled

def request : Journalled → Request
  | write fhandle offset data pathid => Request.Write fhandle offset data pathid
  | pgwrite fhandle offset data retry pathid => Request.PgWrite fhandle offset data retry pathid
  | truncate path size fhandle => Request.Truncate path size fhandle

def data : Journalled → Bytes
  | write _ _ data _ => data
  | pgwrite _ _ data _ _ => data
  | truncate path _ _ => Text.encodeUtf8 path

def pathid : Journalled → Nat
  | write _ _ _ pathid => pathid
  | pgwrite _ _ _ _ pathid => pathid
  | truncate _ _ _ => 0

/-- The server takes the request, sent plainly, for `taken`: its data off the path it
names where that is bound, its header off the control link. -/
def Plainly (inner : Journalled) (taken : Taken) : Prop :=
  ∀ (streamid : Nat) (plain next : Bytes) (paths : Nat → Option Bytes),
    encode inner.request streamid = .ok plain → paths 0 = none →
    (inner.pathid ≠ 0 → ∃ more, paths inner.pathid = some (inner.data ++ more)) →
    takeRequest paths (plain ++ next) = some (taken, next)

/-- A header that declares one header more, that header, and the data it declares. -/
def Carried (inner : Journalled) (frame : Bytes) : Prop :=
  ∃ header block : Bytes, header.length = REQUEST_HDRLEN ∧
    (unpackRequest header).2.2 = REQUEST_HDRLEN ∧ block.length = REQUEST_HDRLEN ∧
    (unpackRequest block).2.2 = inner.data.length ∧ frame = header ++ block ++ inner.data

/-- Where the checkpoint has room, the server runs `taken` and is left before the next frame. -/
def Runs (inner : Journalled) (frame : Bytes) (taken : Taken) : Prop :=
  ∀ (paths : Nat → Option Bytes) (used : Nat) (next : Bytes), paths 0 = none →
    used + inner.data.length ≤ CHECKPOINT_CAPACITY →
    serveCheckpoint paths used (frame ++ next) = some (.run taken, used + inner.data.length, next)

end Journalled

def headerBytes (streamid opcode : Nat) (params : Bytes) (dlen : Nat) : Bytes :=
  BigEndian.encode 2 streamid ++ (BigEndian.encode 2 opcode ++
    (params ++ BigEndian.encode 4 dlen))

section Headers

variable {streamid opcode dlen : Nat} {params : Bytes}

theorem header_length (sixteen : params.length = 16) :
    (headerBytes streamid opcode params dlen).length = REQUEST_HDRLEN := by
  simp [headerBytes, sixteen]

theorem unpack_header (sixteen : params.length = 16) (code : opcode < 0x10000)
    (short : dlen < 256 ^ 4) :
    unpackRequest (headerBytes streamid opcode params dlen) = (opcode, params, dlen) := by
  have second : ∀ rest : Bytes, (BigEndian.encode 2 streamid ++ rest).drop 2 = rest :=
    fun rest => List.drop_left' (encode_length 2 streamid)
  have fourth : ∀ rest : Bytes, (BigEndian.encode 2 opcode ++ rest).drop 2 = rest :=
    fun rest => List.drop_left' (encode_length 2 opcode)
  have block : ∀ rest : Bytes, (params ++ rest).drop 16 = rest :=
    fun rest => List.drop_left' sixteen
  have field : (headerBytes streamid opcode params dlen).drop 4 =
      params ++ BigEndian.encode 4 dlen := by
    rw [headerBytes, show 4 = 2 + 2 from rfl, ← List.drop_drop, second, fourth]
  have last : (headerBytes streamid opcode params dlen).drop 20 = BigEndian.encode 4 dlen := by
    rw [show 20 = 4 + 16 from rfl, ← List.drop_drop, field, block]
  rw [unpackRequest, field, last, headerBytes, second, List.take_left' (encode_length 2 opcode),
    List.take_left' sixteen, List.take_of_length_le (by simp), decode_encode code,
    decode_encode short]

theorem take_header (paths : Nat → Option Bytes) (sixteen : params.length = 16)
    (code : opcode < 0x10000) (short : dlen < 256 ^ 4) (behind : Bytes) :
    takeRequest paths (headerBytes streamid opcode params dlen ++ behind) =
      match paths (dataPath opcode params) with
      | some path => some (⟨opcode, params, path.take dlen⟩, behind)
      | none => some (⟨opcode, params, behind.take dlen⟩, behind.drop dlen) := by
  have width : (headerBytes streamid opcode params dlen).length = REQUEST_HDRLEN :=
    header_length sixteen
  have long : ¬(headerBytes streamid opcode params dlen ++ behind).length < REQUEST_HDRLEN := by
    rw [List.length_append, width]
    omega
  rw [takeRequest, if_neg long, List.take_left' width, List.drop_left' width,
    unpack_header sixteen code short]

end Headers

theorem encode_headed {request : Request} {streamid : Nat} {frame : Bytes}
    (encoded : encode request streamid = .ok frame) :
    ∃ params body, request.params = .ok params ∧ params.length = 16 ∧
      request.payload = .ok body ∧ body.length + request.pathData.length < 256 ^ 4 ∧
      request.opcode < 0x10000 ∧
      frame = headerBytes (streamid % 0x10000) request.opcode params
        (body.length + request.pathData.length) ++ (body ++ request.trailer) := by
  obtain ⟨params, body, block, sixteen, payload, short, code, rfl⟩ := encode_ok encoded
  refine ⟨params, body, block, sixteen, payload, lt_of_le_of_lt short (by decide), code, ?_⟩
  simp only [headerBytes, List.append_assoc]

theorem signed_length {width : Nat} {value : Int} {written : Bytes}
    (done : Writer.signed width value = .ok written) : written.length = width := by
  unfold Writer.signed at done
  split at done
  · cases done
    exact encode_length width _
  · cases done

namespace Journalled

variable {inner : Journalled}

theorem payload_carries (inner : Journalled) : inner.request.payload =
    .ok (if inner.pathid = 0 then inner.data else []) := by
  cases inner <;> rfl

theorem path_carries (inner : Journalled) :
    inner.request.pathData = if inner.pathid = 0 then [] else inner.data := by
  cases inner <;> rfl

theorem no_trailer (inner : Journalled) : inner.request.trailer = [] := by
  cases inner <;> rfl

theorem executable (inner : Journalled) : inner.request.opcode ∈ Request.EXECUTABLE := by
  cases inner <;>
    simp [request, Request.Write, Request.PgWrite, Request.Truncate, Request.EXECUTABLE]

/-- The frame of a request: a header that declares the data, which is there unless a path
is named. -/
theorem plain_frame {streamid : Nat} {frame : Bytes}
    (encoded : encode inner.request streamid = .ok frame) :
    ∃ params, inner.request.params = .ok params ∧ params.length = 16 ∧
      inner.data.length < 256 ^ 4 ∧ inner.request.opcode < 0x10000 ∧
      frame = headerBytes (streamid % 0x10000) inner.request.opcode params inner.data.length ++
        (if inner.pathid = 0 then inner.data else []) := by
  obtain ⟨params, body, block, sixteen, payload, short, code, rfl⟩ := encode_headed encoded
  rw [payload_carries] at payload
  cases payload
  have total : (if inner.pathid = 0 then inner.data else []).length +
      inner.request.pathData.length = inner.data.length := by
    rw [path_carries]
    split <;> simp
  rw [total] at short
  refine ⟨params, block, sixteen, short, code, ?_⟩
  rw [total, no_trailer, List.append_nil]

theorem thirteenth {fhandle field rest : Bytes} {pathid : Nat} (eight : field.length = 8)
    (narrow : pathid < 256) :
    (((Writer.padded fhandle 4 ++ field ++ BigEndian.encode 1 pathid ++ rest).drop 12).headD
      0).toNat = pathid := by
  have twelve : (Writer.padded fhandle 4 ++ field).length = 12 := by
    rw [List.length_append, Writer.padded_length, eight]
  rw [List.append_assoc, List.drop_left' twelve, BigEndian.encode, List.cons_append, List.headD_cons]
  simpa using Nat.mod_eq_of_lt narrow

theorem data_path {params : Bytes} (block : inner.request.params = .ok params) :
    dataPath inner.request.opcode params = inner.pathid := by
  cases inner with
  | write fhandle offset data pathid =>
      obtain ⟨field, place, block⟩ := except_returns block
      obtain ⟨byte, named, block⟩ := except_returns block
      obtain ⟨narrow, rfl⟩ := Writer.unsigned_ok named
      cases block
      rw [dataPath, if_pos (by simp [request, Request.Write])]
      exact thirteenth (signed_length place) narrow
  | pgwrite fhandle offset data retry pathid =>
      obtain ⟨field, place, block⟩ := except_returns block
      obtain ⟨byte, named, block⟩ := except_returns block
      obtain ⟨flags, retried, block⟩ := except_returns block
      obtain ⟨narrow, rfl⟩ := Writer.unsigned_ok named
      cases block
      rw [dataPath, if_pos (by simp [request, Request.PgWrite]), List.append_assoc]
      exact thirteenth (signed_length place) narrow
  | truncate path size fhandle =>
      rw [dataPath, if_neg (by simp [request, Request.Truncate])]
      rfl

theorem plainly {params : Bytes} (block : inner.request.params = .ok params) :
    inner.Plainly ⟨inner.request.opcode, params, inner.data⟩ := by
  intro streamid plain next paths encoded control bound
  obtain ⟨written, same, sixteen, short, code, rfl⟩ := plain_frame encoded
  rw [block] at same
  cases same
  rw [List.append_assoc, take_header paths sixteen code short, data_path block]
  by_cases plain : inner.pathid = 0
  · rw [plain, control]
    simp
  · obtain ⟨more, there⟩ := bound plain
    rw [there]
    simp [plain]

theorem execute_frame (handle : Bytes) (streamid : Nat) {plain : Bytes}
    (encoded : encode inner.request 0 = .ok plain) :
    ∃ outer frame params block, Request.ChkPoint.execute handle inner.request = .ok outer ∧
      encode outer streamid = .ok frame ∧ block.length = 16 ∧
      block.getLast? = some (UInt8.ofNat kXR_ckpXeq) ∧ inner.request.params = .ok params ∧
      params.length = 16 ∧ inner.data.length < 256 ^ 4 ∧ inner.request.opcode < 0x10000 ∧
      frame = headerBytes (streamid % 0x10000) kXR_chkpoint block REQUEST_HDRLEN ++
        (headerBytes 0 inner.request.opcode params inner.data.length ++
          if inner.pathid = 0 then inner.data else []) := by
  obtain ⟨params, block, sixteen, short, code, rfl⟩ := plain_frame encoded
  have width : (headerBytes (0 % 0x10000) inner.request.opcode params inner.data.length).length =
      REQUEST_HDRLEN := header_length sixteen
  have made : Request.ChkPoint.execute handle inner.request = .ok (Request.ChkPoint handle kXR_ckpXeq
      (headerBytes 0 inner.request.opcode params inner.data.length)
      (if inner.pathid = 0 then inner.data else [])) := by
    rw [Request.ChkPoint.execute, if_neg (not_not.mpr (executable inner)), encoded]
    simp only [bind, Except.bind, pure, Except.pure, List.take_left' width, List.drop_left' width]
  obtain ⟨frame, framed⟩ := encode_writes (Request.ChkPoint handle kXR_ckpXeq
      (headerBytes 0 inner.request.opcode params inner.data.length)
      (if inner.pathid = 0 then inner.data else [])) streamid rfl (by simp [Writer.zeros]) rfl
    (by rw [header_length sixteen]; exact (by decide : 24 ≤ MAX_FRAME_PAYLOAD))
    (by exact (by decide : kXR_chkpoint < 0x10000))
  obtain ⟨written, body, same, wide, payload, _, _, layout⟩ := encode_headed framed
  cases same
  cases payload
  refine ⟨_, frame, params, _, made, framed, wide, ?_, block, sixteen, short, code, ?_⟩
  · rw [List.getLast?_append]
    rfl
  · rw [layout, header_length sixteen]
    rfl

/-- A request inside a checkpoint is the request itself exactly where it names no path or
carries no data. -/
theorem checkpointed_iff (handle : Bytes) (streamid : Nat) {inner : Journalled} {plain : Bytes}
    (encoded : encode inner.request 0 = .ok plain) :
    (∃ outer frame taken, Request.ChkPoint.execute handle inner.request = .ok outer ∧
      encode outer streamid = .ok frame ∧ inner.Plainly taken ∧ inner.Carried frame ∧
      inner.Runs frame taken) ↔ inner.pathid = 0 ∨ inner.data = [] := by
  obtain ⟨outer, frame, params, block, made, framed, wide, last, written, sixteen, short, code,
    layout⟩ := execute_frame handle streamid encoded
  have first : (headerBytes (streamid % 0x10000) kXR_chkpoint block REQUEST_HDRLEN).length =
      REQUEST_HDRLEN := header_length wide
  have second : (headerBytes 0 inner.request.opcode params inner.data.length).length =
      REQUEST_HDRLEN := header_length sixteen
  constructor
  · rintro ⟨other, sent, taken, done, written, -, ⟨header, inside, width, -, height, -, carried⟩, -⟩
    rw [made] at done
    cases done
    rw [framed] at written
    cases written
    by_cases named : inner.pathid = 0
    · exact .inl named
    · have lengths := congrArg List.length (layout.symm.trans carried)
      simp only [if_neg named, List.length_append, first, second, width, height,
        List.length_nil] at lengths
      exact .inr (List.length_eq_zero_iff.mp (by omega))
  · intro held
    have behind : (if inner.pathid = 0 then inner.data else []) = inner.data := by
      rcases held with plain | none
      · rw [if_pos plain]
      · rw [none, ite_self]
    rw [behind] at layout
    refine ⟨outer, frame, _, made, framed, plainly written, ?_, ?_⟩
    · refine ⟨_, _, first, ?_, second, ?_, layout.trans (List.append_assoc _ _ _).symm⟩
      · rw [unpack_header wide (by decide) (by decide)]
      · rw [unpack_header sixteen code short]
    · intro paths used next control room
      have outerPath : dataPath kXR_chkpoint block = 0 := rfl
      have taken : takeRequest paths (frame ++ next) = some (⟨kXR_chkpoint, block,
          headerBytes 0 inner.request.opcode params inner.data.length⟩, inner.data ++ next) := by
        rw [layout, List.append_assoc, take_header paths wide (by decide) (by decide), outerPath,
          control, List.append_assoc, List.take_left' second, List.drop_left' second]
      have known : inner.request.opcode ∈ [kXR_write, kXR_pgwrite, kXR_truncate] :=
        executable inner
      rw [serveCheckpoint, taken]
      simp only [last, and_self, if_true]
      rw [checkpointExec, if_neg (by rw [second]; simp), unpack_header sixteen code short]
      simp only [List.take_left, List.drop_left]
      rw [if_neg (not_not.mpr known), if_neg (Nat.not_lt.mpr room)]

theorem truncate_checkpointed : ∃ outer frame taken,
    Request.ChkPoint.execute [1, 2, 3, 4] (truncate (str "/f") 10 []).request = .ok outer ∧
      encode outer 7 = .ok frame ∧ (truncate (str "/f") 10 []).Plainly taken ∧
      (truncate (str "/f") 10 []).Carried frame ∧ (truncate (str "/f") 10 []).Runs frame taken := by
  obtain ⟨plain, encoded⟩ : ∃ plain, encode (truncate (str "/f") 10 []).request 0 = .ok plain :=
    ⟨_, rfl⟩
  exact (checkpointed_iff [1, 2, 3, 4] 7 encoded).mpr (.inl rfl)

/-- A write of one byte that names path 1: the byte its header declares is not sent, and
the server takes the first byte of the next frame for it. -/
theorem path_write_short :
    (∃ outer frame, Request.ChkPoint.execute [0, 0, 0, 1] (write [0, 0, 0, 1] 0 [97] 1).request =
        .ok outer ∧ encode outer 7 = .ok frame ∧ frame.length = 48 ∧
      serveCheckpoint (fun _ => none) 0 (frame ++ [5]) = some (.run
        ⟨kXR_write, [0, 0, 0, 1, 0, 0, 0, 0, 0, 0, 0, 0, 1, 0, 0, 0], [5]⟩, 1, [])) ∧
    ¬∃ outer frame taken, Request.ChkPoint.execute [0, 0, 0, 1]
        (write [0, 0, 0, 1] 0 [97] 1).request = .ok outer ∧ encode outer 7 = .ok frame ∧
      (write [0, 0, 0, 1] 0 [97] 1).Plainly taken ∧
      (write [0, 0, 0, 1] 0 [97] 1).Carried frame ∧
      (write [0, 0, 0, 1] 0 [97] 1).Runs frame taken := by
  have sent : ∃ outer frame, Request.ChkPoint.execute [0, 0, 0, 1]
        (write [0, 0, 0, 1] 0 [97] 1).request = .ok outer ∧ encode outer 7 = .ok frame ∧
      frame.length = 48 ∧ serveCheckpoint (fun _ => none) 0 (frame ++ [5]) = some (.run
        ⟨kXR_write, [0, 0, 0, 1, 0, 0, 0, 0, 0, 0, 0, 0, 1, 0, 0, 0], [5]⟩, 1, []) :=
    ⟨_, _, rfl, rfl, rfl, by decide +kernel⟩
  constructor
  · exact sent
  · rintro ⟨outer, frame, taken, made, framed, -, ⟨header, block, width, -, height, -, carried⟩, -⟩
    obtain ⟨other, short, same, written, size, -⟩ := sent
    rw [made] at same
    cases same
    rw [framed] at written
    cases written
    rw [carried, List.length_append, List.length_append, width, height] at size
    revert size
    decide

end Journalled

end XRootDClient.Proto

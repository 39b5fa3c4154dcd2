import XRootDClient.Proto.Buffer
import XRootDClient.Proto.Constants

/-!
# Frame-level codecs

Three fixed layouts: the 20-byte handshake, the 24-byte request header
(streamid 2, requestid 2, params 16, dlen 4) and the 8-byte response header
(streamid 2, status 2, dlen 4). A request is the record of what its class
overrides; the parameter block and the payload may raise while they are being
written.
-/

set_option autoImplicit false

namespace XRootDClient.Proto

open Lib Lib.BigEndian

def HANDSHAKE : Bytes := Writer.zeros 12 ++ encode 4 4 ++ encode 4 ROOTD_PQ

structure Request where
  typeName : Text
  opcode : Nat
  params : Except Exception Bytes := .ok (Writer.zeros 16)
  payload : Except Exception Bytes := .ok []
  pathData : Bytes := []
  trailer : Bytes := []
  pathid : Nat := 0
  replyOnPath : Bool := false
  deriving DecidableEq

def encode (request : Request) (streamid : Nat) : Except Exception Bytes := do
  let params ← request.params
  if params.length ≠ 16 then
    throw (.protocolError (request.typeName ++ str ".params wrote " ++
      Text.ofNat params.length ++ str " bytes, expected 16"))
  let body ← request.payload
  let dlen := body.length + request.pathData.length
  if dlen > MAX_FRAME_PAYLOAD then
    throw (.protocolError (str "payload of " ++ Text.ofNat dlen ++
      str " bytes exceeds the protocol maximum"))
  let opcode ← Writer.u16 request.opcode
  return BigEndian.encode 2 (streamid % 0x10000) ++ opcode ++ params ++
    BigEndian.encode 4 dlen ++ body ++ request.trailer

theorem encode_ok {request : Request} {streamid : Nat} {frame : Bytes}
    (encoded : encode request streamid = .ok frame) :
    ∃ params body, request.params = .ok params ∧ params.length = 16 ∧
      request.payload = .ok body ∧ body.length + request.pathData.length ≤ MAX_FRAME_PAYLOAD ∧
      request.opcode < 0x10000 ∧
      frame = BigEndian.encode 2 (streamid % 0x10000) ++ (BigEndian.encode 2 request.opcode ++
        (params ++ (BigEndian.encode 4 (body.length + request.pathData.length) ++
          (body ++ request.trailer)))) := by
  unfold encode at encoded
  cases params : request.params with
  | error error => simp [params, bind, Except.bind] at encoded
  | ok written =>
      simp only [params, bind, Except.bind] at encoded
      split at encoded
      · cases encoded
      next sixteen =>
      cases payload : request.payload with
      | error error => simp [payload] at encoded
      | ok body =>
          simp only [payload, pure, Except.pure] at encoded
          split at encoded
          · cases encoded
          next short =>
          cases opcode : Writer.u16 request.opcode with
          | error error => simp [opcode] at encoded
          | ok field =>
              obtain ⟨bounded, written⟩ := Writer.unsigned_ok opcode
              simp only [opcode, Except.ok.injEq] at encoded
              refine ⟨_, body, rfl, not_not.mp sixteen, rfl, Nat.le_of_not_lt short, bounded, ?_⟩
              rw [← encoded, written]
              simp [List.append_assoc]

theorem encode_writes (request : Request) (streamid : Nat) {params body : Bytes}
    (block : request.params = .ok params) (sixteen : params.length = 16)
    (payload : request.payload = .ok body)
    (short : body.length + request.pathData.length ≤ MAX_FRAME_PAYLOAD)
    (code : request.opcode < 0x10000) : ∃ frame, encode request streamid = .ok frame := by
  have field : Writer.u16 request.opcode = .ok (BigEndian.encode 2 request.opcode) := by
    rw [Writer.u16, Writer.unsigned, if_pos (show request.opcode < 256 ^ 2 from code)]
  refine ⟨BigEndian.encode 2 (streamid % 0x10000) ++ BigEndian.encode 2 request.opcode ++ params ++
    BigEndian.encode 4 (body.length + request.pathData.length) ++ body ++ request.trailer, ?_⟩
  simp only [encode, bind, Except.bind, pure, Except.pure, block, payload, field, sixteen, ne_eq,
    not_true_eq_false, if_false, if_neg (Nat.not_lt.mpr short)]

structure ResponseHeader where
  streamid : Nat
  status : Nat
  dlen : Nat
  deriving DecidableEq

def decodeHeader (data : Bytes) : Except Exception ResponseHeader :=
  if data.length < RESPONSE_HDRLEN then
    .error (.protocolError (str "response header needs 8 bytes, got " ++
      Text.ofNat data.length))
  else
    let dlen := decode ((data.drop 4).take 4)
    if dlen > MAX_RESPONSE_BODY then
      .error (.protocolError (str "response declares a body of " ++ Text.ofNat dlen ++
        str " bytes, past the " ++ Text.ofNat MAX_RESPONSE_BODY ++ str " this client will buffer"))
    else
      .ok { streamid := decode (data.take 2)
            status := decode ((data.drop 2).take 2)
            dlen := dlen }

theorem decode_header_bounded {data : Bytes} {header : ResponseHeader}
    (decoded : decodeHeader data = .ok header) : header.dlen ≤ MAX_RESPONSE_BODY := by
  unfold decodeHeader at decoded
  split at decoded
  · cases decoded
  · dsimp only at decoded
    split at decoded
    · cases decoded
    · next bounded =>
        cases decoded
        exact Nat.le_of_not_lt bounded

def ResponseHeader.bytes (header : ResponseHeader) : Bytes :=
  BigEndian.encode 2 header.streamid ++ BigEndian.encode 2 header.status ++
    BigEndian.encode 4 header.dlen

@[simp] theorem response_header_length (header : ResponseHeader) : header.bytes.length = 8 := by
  simp [ResponseHeader.bytes]

def response (streamid status : Nat) (body : Bytes) : Bytes :=
  ResponseHeader.bytes ⟨streamid, status, body.length⟩ ++ body

theorem ResponseHeader.bytes_dlen (header : ResponseHeader) :
    (header.bytes.drop 4).take 4 = BigEndian.encode 4 header.dlen := by
  rw [ResponseHeader.bytes, List.drop_left' (by simp)]
  exact List.take_of_length_le (by simp)

theorem decode_header_refused (header : ResponseHeader) (width : header.dlen < 256 ^ 4)
    (long : MAX_RESPONSE_BODY < header.dlen) :
    ∃ error, decodeHeader header.bytes = .error error := by
  unfold decodeHeader
  rw [if_neg (by simp)]
  simp only [header.bytes_dlen, decode_encode width]
  rw [if_pos long]
  exact ⟨_, rfl⟩

theorem decode_header_bytes (header : ResponseHeader) (streamid : header.streamid < 0x10000)
    (status : header.status < 0x10000) (dlen : header.dlen ≤ MAX_RESPONSE_BODY) :
    decodeHeader header.bytes = .ok header := by
  have first : header.bytes.take 2 = BigEndian.encode 2 header.streamid := by
    rw [ResponseHeader.bytes, List.append_assoc]
    exact List.take_left' (by simp)
  have later : header.bytes.drop 2 =
      BigEndian.encode 2 header.status ++ BigEndian.encode 4 header.dlen := by
    rw [ResponseHeader.bytes, List.append_assoc]
    exact List.drop_left' (by simp)
  have second : (header.bytes.drop 2).take 2 = BigEndian.encode 2 header.status := by
    rw [later]
    exact List.take_left' (by simp)
  have third := header.bytes_dlen
  have length : ¬header.bytes.length < RESPONSE_HDRLEN := by simp
  have size : decode (BigEndian.encode 4 header.dlen) = header.dlen :=
    decode_encode (lt_of_le_of_lt dlen (by decide))
  unfold decodeHeader
  rw [if_neg length]
  simp only [first, second, third, size]
  rw [if_neg (Nat.not_lt.mpr dlen), decode_encode (by omega), decode_encode (by omega)]

end XRootDClient.Proto

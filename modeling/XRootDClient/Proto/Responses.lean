import XRootDClient.Proto.Frames

/-!
# Response bodies

Decoders of the bytes after the response header, for the statuses the session
machine dispatches on and for the replies of bring-up.
-/

set_option autoImplicit false

namespace XRootDClient.Proto

open Lib Lib.BigEndian

/-- `data.split(b"\x00", 1)[0].decode("utf-8", "replace")`. -/
def headText (data : Bytes) : Text := Text.decodeUtf8 (data.takeWhile (· ≠ 0))

structure ErrorInfo where
  code : Int
  message : Text
  deriving DecidableEq

def parseError (data : Bytes) : Except Exception ErrorInfo :=
  Reader.run (do return ⟨← Reader.i32, ← Reader.cstring⟩) data "kXR_error"

structure RedirectInfo where
  host : Text
  port : Int
  token : Text
  deriving DecidableEq

def parseRedirect (data : Bytes) : Except Exception RedirectInfo :=
  Reader.run (do
    let port ← Reader.i32
    let target := headText (← Reader.rest)
    let (host, marked, token) := Text.partition '?' target
    if host = [] then
      throw (.protocolError (str "kXR_redirect names no host to redirect to"))
    return ⟨host, port, if marked then token else []⟩) data "kXR_redirect"

structure WaitInfo where
  seconds : Int
  message : Text := []
  deriving DecidableEq

def parseWait (data : Bytes) : Except Exception WaitInfo :=
  Reader.run (do return ⟨← Reader.i32, ← Reader.cstring⟩) data "kXR_wait"

def parseWaitresp (data : Bytes) : Except Exception WaitInfo :=
  Reader.run (do return { seconds := ← Reader.i32 }) data "kXR_waitresp"

structure AttnInfo where
  action : Int
  params : Bytes
  deriving DecidableEq

def parseAttn (data : Bytes) : Except Exception AttnInfo :=
  Reader.run (do return ⟨← Reader.i32, ← Reader.rest⟩) data "kXR_attn"

/-- Body of a `kXR_status` response; `dlen` is the length of the raw data that
follows the body on the wire, and it is signed there. -/
structure StatusInfo where
  crc32c : Nat
  streamid : Nat
  requestid : Nat
  resptype : Nat
  dlen : Int
  info : Bytes
  deriving DecidableEq

def StatusInfo.isFinal (status : StatusInfo) : Bool := status.resptype == kXR_FinalResult

def parseStatus (data : Bytes) : Except Exception StatusInfo :=
  Reader.run (do
    let crc ← Reader.u32
    let streamid ← Reader.u16
    let requestid := (← Reader.u8) + kXR_1stRequest
    let resptype ← Reader.u8
    Reader.skip 4
    let dlen ← Reader.i32
    return ⟨crc, streamid, requestid, resptype, dlen, ← Reader.rest⟩) data "kXR_status"

structure ProtocolInfo where
  version : Int := 0
  flags : Nat := 0
  securityLevel : Nat := 0
  securityVersion : Nat := 0
  securityOptions : Nat := 0
  securityOverrides : Dict Nat Nat := ∅
  deriving DecidableEq

/-- The byte that tags the security-requirements record, `'S'`. -/
def secTag : UInt8 := 0x53

/-- Locates the security-requirements record inside the trailer of a
`kXR_protocol` body: the whole trailer, or behind a list of method entries. -/
def findSecReqs (trailer : Bytes) : Option Bytes :=
  if trailer.length ≥ 6 ∧ trailer.head? = some secTag then some trailer
  else if trailer.length ≥ 4 then
    let offset := 4 + (trailer.getD 2 0).toNat * 8
    if trailer.length ≥ offset + 6 ∧ (trailer.drop offset).head? = some secTag then
      some (trailer.drop offset)
    else none
  else none

/-- The override pairs of a security-requirements record: request index and
signing level, as many as announced and present. -/
def securityOverrides : Nat → Bytes → Dict Nat Nat → Dict Nat Nat
  | count + 1, index :: level :: rest, overrides =>
      securityOverrides count rest (overrides.set (index.toNat + kXR_1stRequest) level.toNat)
  | _, _, overrides => overrides

def parseProtocol (data : Bytes) : Except Exception ProtocolInfo :=
  Reader.run (do
    let version ← Reader.i32
    let flags ← Reader.u32
    match findSecReqs (← Reader.rest) with
    | none => return { version := version, flags := flags }
    | some reqs =>
        return { version := version
                 flags := flags
                 securityLevel := (reqs.getD 4 0).toNat
                 securityVersion := (reqs.getD 2 0).toNat
                 securityOptions := (reqs.getD 3 0).toNat
                 securityOverrides :=
                   securityOverrides (reqs.getD 5 0).toNat (reqs.drop 6) ∅ }) data "kXR_protocol"

structure LoginInfo where
  sessid : Bytes
  sec : Text
  deriving DecidableEq

/-- The mechanism names in the security continuation, in the server's order. -/
def LoginInfo.mechanisms (login : LoginInfo) : List Text :=
  ((login.sec.splitOn '&').filter fun part => (str "P=").isPrefixOf part).map
    fun part => (Text.partition ',' (part.drop 2)).1

def parseLogin (data : Bytes) : Except Exception LoginInfo :=
  Reader.run (do
    let sessid ← Reader.bytes (min SESSION_ID_LEN (← Reader.remaining) : Nat)
    return ⟨sessid, headText (← Reader.rest)⟩) data "kXR_login"

/-- The path id the server assigned; zero spells the control link and is refused. -/
def parseBind (data : Bytes) : Except Exception Nat :=
  Reader.run (do
    let pathid ← Reader.u8
    if pathid = 0 then
      throw (.protocolError (str "kXR_bind returned path id 0, which is the control link"))
    return pathid) data "kXR_bind"

end XRootDClient.Proto

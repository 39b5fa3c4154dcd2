import XRootDClient.Lib.Repr
import XRootDClient.Proto.Frames

/-!
# Requests

One constructor per request class of the session layer and of bulk transfer;
each writes its sixteen parameter bytes in the source's order.
-/

set_option autoImplicit false

namespace XRootDClient.Proto

open Lib Lib.BigEndian

namespace Request

def Protocol (flags : Nat) : Request where
  typeName := str "Protocol"
  opcode := kXR_protocol
  params := do
    return (← Writer.u32 kXR_PROTOCOLVERSION) ++ (← Writer.u8 flags) ++
      (← Writer.u8 kXR_ExpLogin) ++ Writer.zeros 10

/-- `kXR_login`, with the default capability version and no token. -/
def Login (username : Text) (pid : Nat) : Request where
  typeName := str "Login"
  opcode := kXR_login
  params := do
    return (← Writer.i32 pid) ++ Writer.padded (Text.encodeUtf8 username) 8 ++ Writer.zeros 2 ++
      (← Writer.u8 (kXR_ver005 ||| kXR_asyncap)) ++ (← Writer.u8 0)

/-- `kXR_auth`: one round of a credential exchange. The constructor refuses a
mechanism name that does not fit its field. -/
def Auth (credtype : Text) (cred : Bytes) : Except Exception Request :=
  if (Text.encodeUtf8 credtype).length > 4 then
    -- every character beyond ASCII is shown as a printable one
    .error (.valueError (str "credtype must be <= 4 bytes, got " ++
      Repr.text (fun _ => true) credtype))
  else
    .ok { typeName := str "Auth"
          opcode := kXR_auth
          params := .ok (Writer.zeros 12 ++ Writer.padded (Text.encodeUtf8 credtype) 4)
          payload := .ok cred }

/-- `kXR_ping`. -/
def Ping : Request where
  typeName := str "Ping"
  opcode := kXR_ping

def EndSession (sessid : Bytes) : Request where
  typeName := str "EndSession"
  opcode := kXR_endsess
  params := .ok (Writer.padded sessid 16)

/-- `kXR_bind`: attach an extra data connection to a session. -/
def Bind (sessid : Bytes) : Request where
  typeName := str "Bind"
  opcode := kXR_bind
  params := .ok (Writer.padded sessid 16)

def Stat (path : Text) (options : Nat) (fhandle : Bytes) : Request where
  typeName := str "Stat"
  opcode := kXR_stat
  params := do
    return (← Writer.u8 options) ++ Writer.zeros 11 ++ Writer.padded fhandle 4
  payload := .ok (Text.encodeUtf8 path)

/-- `kXR_query`. -/
def Query (infotype : Nat) (args fhandle : Bytes) : Request where
  typeName := str "Query"
  opcode := kXR_query
  params := do
    return (← Writer.u16 infotype) ++ Writer.zeros 2 ++ Writer.padded fhandle 4 ++ Writer.zeros 8
  payload := .ok args

/-- `kXR_read`. The path to answer on rides in the payload, which is absent
when there is none. -/
def Read (fhandle : Bytes) (offset length : Int) (pathid : Nat) : Request where
  typeName := str "Read"
  opcode := kXR_read
  params := do
    return Writer.padded fhandle 4 ++ (← Writer.i64 offset) ++ (← Writer.i32 length)
  payload := if pathid = 0 then .ok [] else do
    return (← Writer.u8 pathid) ++ Writer.zeros 7
  pathid := pathid
  replyOnPath := true

/-- `kXR_write`: the data travels on the path, the answer on the control link. -/
def Write (fhandle : Bytes) (offset : Int) (data : Bytes) (pathid : Nat) : Request where
  typeName := str "Write"
  opcode := kXR_write
  params := do
    return Writer.padded fhandle 4 ++ (← Writer.i64 offset) ++ (← Writer.u8 pathid) ++
      Writer.zeros 3
  payload := .ok (if pathid = 0 then data else [])
  pathData := if pathid = 0 then [] else data
  pathid := pathid

/-- `kXR_pgread`: read with a checksum for each page. -/
def PgRead (fhandle : Bytes) (offset length : Int) (retry : Bool) (pathid : Nat) : Request where
  typeName := str "PgRead"
  opcode := kXR_pgread
  params := do
    return Writer.padded fhandle 4 ++ (← Writer.i64 offset) ++ (← Writer.i32 length)
  payload := if !retry && pathid = 0 then .ok [] else do
    return (← Writer.u8 pathid) ++ (← Writer.u8 (if retry then kXR_pgRetry else 0)) ++
      Writer.zeros 2
  pathid := pathid
  replyOnPath := true

/-- `kXR_pgwrite`: write with a checksum in front of each page. -/
def PgWrite (fhandle : Bytes) (offset : Int) (data : Bytes) (retry : Bool) (pathid : Nat) :
    Request where
  typeName := str "PgWrite"
  opcode := kXR_pgwrite
  params := do
    return Writer.padded fhandle 4 ++ (← Writer.i64 offset) ++ (← Writer.u8 pathid) ++
      (← Writer.u8 (if retry then kXR_pgRetry else 0)) ++ Writer.zeros 2
  payload := .ok (if pathid = 0 then data else [])
  pathData := if pathid = 0 then [] else data
  pathid := pathid

/-- `kXR_sigver`: the signature frame in front of a signed request. -/
def Sigver (expectrid seqno : Nat) (signature : Bytes) : Request where
  typeName := str "Sigver"
  opcode := kXR_sigver
  params := do
    return (← Writer.u16 expectrid) ++ (← Writer.u8 0) ++ (← Writer.u8 0) ++
      (← Writer.u64 seqno) ++ (← Writer.u8 kXR_SHA256_sig) ++ Writer.zeros 3
  payload := .ok signature

end Request

end XRootDClient.Proto

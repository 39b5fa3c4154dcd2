import XRootDClient.Lib.Sha256
import XRootDClient.Proto.Frames

/-!
# Request signing

Covered opcodes are preceded by a `kXR_sigver` frame carrying
HMAC-SHA256 over the sequence number, the request header and the payload its
header declares. The signer keeps the session key and the sequence number;
`sign` is the only way to advance it.
-/

set_option autoImplicit false

namespace XRootDClient.Crypto

open Lib Lib.BigEndian Proto

/-- Opcodes that mutate state, signed from `kXR_secStandard` up. -/
def SIGNED_OPCODES : List Nat :=
  [kXR_chmod, kXR_fattr, kXR_mkdir, kXR_mv, kXR_open, kXR_pgwrite, kXR_prepare, kXR_rm,
   kXR_rmdir, kXR_set, kXR_truncate, kXR_write, kXR_writev, kXR_chkpoint, kXR_clone]

/-- `LEVEL_OPCODES.get(level, SIGNED_OPCODES)`. -/
def levelOpcodes (level opcode : Nat) : Bool :=
  if level = kXR_secNone ∨ level = kXR_secCompatible then false
  else if level = kXR_secIntense then
    SIGNED_OPCODES.contains opcode ||
      [kXR_close, kXR_dirlist, kXR_locate, kXR_stat].contains opcode
  else if level = kXR_secPedantic then
    decide (kXR_1stRequest ≤ opcode) && decide (opcode ≤ kXR_clone)
  else SIGNED_OPCODES.contains opcode

/-- Whether an opcode needs a signature at a security level; the per-opcode
table of the server decides first. -/
def isSigned (opcode level : Nat) (overrides : Dict Nat Nat) : Bool :=
  match overrides.get? opcode with
  | some override => override != kXR_secNone
  | none => if level ≤ kXR_secCompatible then false else levelOpcodes level opcode

structure Signer where
  key : Bytes
  level : Nat
  overrides : Dict Nat Nat
  seqno : Nat := 0
  deriving DecidableEq

namespace Signer

def required (signer : Signer) (opcode : Nat) : Bool :=
  !signer.key.isEmpty && isSigned opcode signer.level signer.overrides

def frameOpcode (frame : Bytes) : Nat := decode ((frame.drop 2).take 2)

theorem frame_opcode {request : Request} {streamid : Nat} {frame : Bytes}
    (encoded : Proto.encode request streamid = .ok frame) (rest : Bytes) :
    frameOpcode (frame ++ rest) = request.opcode := by
  obtain ⟨params, body, -, -, -, -, bounded, rfl⟩ := encode_ok encoded
  unfold frameOpcode
  rw [List.append_assoc, List.drop_left' (by simp), List.append_assoc, List.take_left' (by simp)]
  exact decode_encode bounded

/-- Exactly what the header's `dlen` declares of what follows the header. -/
def declaredPayload (frame : Bytes) : Bytes :=
  let dlen := signed 4 (decode ((frame.drop (REQUEST_HDRLEN - 4)).take 4))
  (frame.drop REQUEST_HDRLEN).take dlen.toNat

/-- The signature of an encoded frame, or nothing if it needs none, together
with the signer as it is left. The counter moves before the sequence number is
packed, so it has moved even when the pack fails. -/
def sign (signer : Signer) (frame : Bytes) :
    Except Exception (Option (Nat × Bytes)) × Signer :=
  if signer.required (frameOpcode frame) then
    let seqno := signer.seqno + 1
    let mac := do
      let packed ← Writer.u64 seqno
      return some (seqno, Sha256.hmac signer.key
        (packed ++ frame.take REQUEST_HDRLEN ++ declaredPayload frame))
    (mac, { signer with seqno := seqno })
  else (.ok none, signer)

end Signer

end XRootDClient.Crypto

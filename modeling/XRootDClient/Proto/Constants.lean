import XRootDClient.Lib.Text

/-!
Wire constants, under their protocol names. Opcodes and statuses are the values
of the two-byte header fields; the flag words are bit masks of `kXR_protocol`.
-/

set_option autoImplicit false

namespace XRootDClient.Proto

open Lib

abbrev kXR_auth : Nat := 3000
abbrev kXR_query : Nat := 3001
abbrev kXR_chmod : Nat := 3002
abbrev kXR_close : Nat := 3003
abbrev kXR_dirlist : Nat := 3004
abbrev kXR_protocol : Nat := 3006
abbrev kXR_login : Nat := 3007
abbrev kXR_mkdir : Nat := 3008
abbrev kXR_mv : Nat := 3009
abbrev kXR_open : Nat := 3010
abbrev kXR_ping : Nat := 3011
abbrev kXR_chkpoint : Nat := 3012
abbrev kXR_read : Nat := 3013
abbrev kXR_rm : Nat := 3014
abbrev kXR_rmdir : Nat := 3015
abbrev kXR_stat : Nat := 3017
abbrev kXR_set : Nat := 3018
abbrev kXR_write : Nat := 3019
abbrev kXR_fattr : Nat := 3020
abbrev kXR_prepare : Nat := 3021
abbrev kXR_endsess : Nat := 3023
abbrev kXR_bind : Nat := 3024
abbrev kXR_readv : Nat := 3025
abbrev kXR_pgwrite : Nat := 3026
abbrev kXR_locate : Nat := 3027
abbrev kXR_truncate : Nat := 3028
abbrev kXR_sigver : Nat := 3029
abbrev kXR_pgread : Nat := 3030
abbrev kXR_writev : Nat := 3031
abbrev kXR_clone : Nat := 3032
abbrev kXR_symlink : Nat := 3501
abbrev kXR_link : Nat := 3503
abbrev kXR_1stRequest : Nat := 3000

abbrev kXR_ok : Nat := 0
abbrev kXR_oksofar : Nat := 4000
abbrev kXR_attn : Nat := 4001
abbrev kXR_authmore : Nat := 4002
abbrev kXR_error : Nat := 4003
abbrev kXR_redirect : Nat := 4004
abbrev kXR_wait : Nat := 4005
abbrev kXR_waitresp : Nat := 4006
abbrev kXR_status : Nat := 4007

abbrev kXR_asynresp : Int := 5008

abbrev kXR_haveTLS : Nat := 0x80000000
abbrev kXR_gotoTLS : Nat := 0x40000000
abbrev kXR_tlsData : Nat := 0x01000000
abbrev kXR_tlsLogin : Nat := 0x04000000
abbrev kXR_tlsSess : Nat := 0x08000000

abbrev ROOTD_PQ : Nat := 2012
abbrev kXR_PROTOCOLVERSION : Nat := 0x00000520
abbrev kXR_secreqs : Nat := 0x01
abbrev kXR_ableTLS : Nat := 0x02
abbrev kXR_wantTLS : Nat := 0x04
abbrev kXR_ExpLogin : Nat := 0x03
abbrev kXR_asyncap : Nat := 0x80
abbrev kXR_ver005 : Nat := 0x05
abbrev SESSION_ID_LEN : Nat := 16

abbrev kXR_SHA256_sig : Nat := 0x01
abbrev kXR_secNone : Nat := 0
abbrev kXR_secCompatible : Nat := 1
abbrev kXR_secStandard : Nat := 2
abbrev kXR_secIntense : Nat := 3
abbrev kXR_secPedantic : Nat := 4

abbrev kXR_ckpXeq : Nat := 4
abbrev kXR_Qcksum : Nat := 3

abbrev kXR_pgRetry : Nat := 0x01
abbrev kXR_FinalResult : Nat := 0x00

abbrev DEFAULT_PORT : Nat := 1094
abbrev FHANDLE_LEN : Nat := 4
abbrev REQUEST_HDRLEN : Nat := 24
abbrev RESPONSE_HDRLEN : Nat := 8

/-- Largest single read or write the protocol carries in one frame. -/
abbrev MAX_FRAME_PAYLOAD : Nat := 0x7FFFFFFF

abbrev MAX_RESPONSE_BODY : Nat := 2 ^ 30

def statusNames : List (Nat × String) :=
  [(kXR_ok, "kXR_ok"), (kXR_oksofar, "kXR_oksofar"), (kXR_attn, "kXR_attn"),
   (kXR_authmore, "kXR_authmore"), (kXR_error, "kXR_error"), (kXR_redirect, "kXR_redirect"),
   (kXR_wait, "kXR_wait"), (kXR_waitresp, "kXR_waitresp"), (kXR_status, "kXR_status")]

def statusName (status : Nat) : Text :=
  match statusNames.lookup status with
  | some name => str name
  | none => str "kXR_unknown(" ++ Text.ofNat status ++ str ")"

end XRootDClient.Proto

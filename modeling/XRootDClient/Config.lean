import XRootDClient.Lib.Text
import Mathlib.Data.Rat.Defs

/-!
The client settings the session, file and copy layers read. `waitCap`,
`retryBackoff` and `poolIdleTtl` are numbers of seconds and need not be whole.
-/

set_option autoImplicit false

namespace XRootDClient

open Lib

structure Config where
  username : Text := str "nobody"
  connectRetries : Int := 3
  retryBackoff : ℚ := 1 / 2
  redirectLimit : Int := 16
  waitCap : ℚ := 600
  poolSize : Int := 8
  poolIdleTtl : ℚ := 120
  token : Option Text := none
  tokenFile : Option Text := none
  keytab : Option Text := none
  proxy : Option Text := none
  caPath : Option Text := none
  caFile : Option Text := none
  authOrder : List Text :=
    [str "gsi", str "ztn", str "krb5", str "sss", str "unix", str "host"]
  verifyTls : Bool := true
  requireTls : Bool := false
  prompt : Option Bool := none
  chunkSize : Nat := 4194304
  maxReadSize : Nat := 1073741824
  deriving DecidableEq

end XRootDClient

import XRootDClient.Lib.Dict
import XRootDClient.Lib.Text

/-!
# Exceptions

The exceptions the client raises or carries in its events, with the texts the
source gives them. `ServerClass` is the table that maps a server error code to
the exception class standing for it; an exception foreign to the library keeps
its type name and its text.
-/

set_option autoImplicit false

namespace XRootDClient

open Lib

/-- The classes of `ServerError`: the base class and the ones that are also the
natural `OSError`. -/
inductive ServerClass
  | serverError
  | notFound
  | exists_
  | permission
  | isADirectory
  | notADirectory
  | noSpace
  | io
  | unsupported
  | readOnly
  | quota
  | attrNotFound
  | busy
  | invalidArgument
  | serverTimeout
  deriving DecidableEq

inductive Exception
  | protocolError (message : Text)
  | connectionError (message : Text)
  | timeoutError (message : Text)
  | authenticationError (message : Text)
  | noMechanismError (offered : List Text) (tried : Dict Text Text)
  | serverError (kind : ServerClass) (code : Int) (message : Text) (path : Option Text)
  | checksumMismatchError (algorithm expected actual : Text)
  | foreign (typeName message : Text)
  deriving DecidableEq

namespace Errors

def kXR_ChkSumErr : Int := 3019

/-- `_CODE_CLASSES.get(code, ServerError)`. -/
def codeClass (code : Int) : ServerClass :=
  if code ∈ [3000, 3001, 3002, 3006, 3031, 3004, 3026, 3017] then .invalidArgument
  else if code ∈ [3003, 3020, 3024, 3032] then .busy
  else if code ∈ [3005, 3007, 3012, 3033] then .io
  else if code ∈ [3008, 3009] then .noSpace
  else if code = 3021 then .quota
  else if code ∈ [3010, 3030, 3028, 3022, 3023] then .permission
  else if code ∈ [3011, 3014, 3029] then .notFound
  else if code ∈ [3034, 3035] then .serverTimeout
  else if code = 3013 then .unsupported
  else if code = 3015 then .notADirectory
  else if code = 3016 then .isADirectory
  else if code = 3018 then .exists_
  else if code = 3025 then .readOnly
  else if code = 3027 then .attrNotFound
  else .serverError

/-- `raise_for_status`: the exception raised, or nothing for code zero. -/
def raiseForStatus (code : Int) (message : Text) (path : Option Text) : Option Exception :=
  if code = 0 then none
  else if code = kXR_ChkSumErr then
    some (.checksumMismatchError (str "crc32c") (str "<server>")
      (if message = [] then str "<client>" else message))
  else some (.serverError (codeClass code) code message path)

end Errors

namespace Exception

def structError (message : Text) : Exception := .foreign (str "error") message

def valueError (message : Text) : Exception := .foreign (str "ValueError") message

def assertionError : Exception := .foreign (str "AssertionError") []

/-- `_CODE_NAMES`, for the codes that have a name. -/
def codeNames : List (Int × String) :=
  [(3000, "kXR_ArgInvalid"), (3001, "kXR_ArgMissing"), (3002, "kXR_ArgTooLong"),
   (3003, "kXR_FileLocked"), (3004, "kXR_FileNotOpen"), (3005, "kXR_FSError"),
   (3006, "kXR_InvalidRequest"), (3007, "kXR_IOError"), (3008, "kXR_NoMemory"),
   (3009, "kXR_NoSpace"), (3010, "kXR_NotAuthorized"), (3011, "kXR_NotFound"),
   (3012, "kXR_ServerError"), (3013, "kXR_Unsupported"), (3014, "kXR_noserver"),
   (3015, "kXR_NotFile"), (3016, "kXR_isDirectory"), (3017, "kXR_Cancelled"),
   (3018, "kXR_ItExists"), (3019, "kXR_ChkSumErr"), (3020, "kXR_inProgress"),
   (3021, "kXR_overQuota"), (3022, "kXR_SigVerErr"), (3023, "kXR_DecryptErr"),
   (3024, "kXR_Overloaded"), (3025, "kXR_fsReadOnly"), (3026, "kXR_BadPayload"),
   (3027, "kXR_AttrNotFound"), (3028, "kXR_TLSRequired"), (3029, "kXR_noReplicas"),
   (3030, "kXR_AuthFailed"), (3031, "kXR_Impossible"), (3032, "kXR_Conflict"),
   (3033, "kXR_TooManyErrs"), (3034, "kXR_ReqTimedOut"), (3035, "kXR_TimerExpired")]

def codeName (code : Int) : Text :=
  match codeNames.lookup code with
  | some name => str name
  | none => str "kXR_unknown(" ++ Text.ofInt code ++ str ")"

/-- `NoMechanismError`'s text: what was offered, then why each mechanism failed. -/
def noMechanismText (offered : List Text) (tried : Dict Text Text) : Text :=
  let names := if Text.join (str ", ") offered = [] then str "none"
    else Text.join (str ", ") offered
  let message := str "no usable authentication mechanism (server offered: " ++ names ++ str ")"
  let detail := Text.join (str "; ")
    (tried.entries.map fun entry => entry.1 ++ str ": " ++ entry.2)
  if detail = [] then message else message ++ str " [" ++ detail ++ str "]"

def className : ServerClass → Text
  | .serverError => str "ServerError"
  | .notFound => str "NotFoundError"
  | .exists_ => str "ExistsError"
  | .permission => str "PermissionError"
  | .isADirectory => str "IsADirectoryError"
  | .notADirectory => str "NotADirectoryError"
  | .noSpace => str "NoSpaceError"
  | .io => str "IOError"
  | .unsupported => str "UnsupportedError"
  | .readOnly => str "ReadOnlyError"
  | .quota => str "QuotaError"
  | .attrNotFound => str "AttrNotFoundError"
  | .busy => str "BusyError"
  | .invalidArgument => str "InvalidArgumentError"
  | .serverTimeout => str "ServerTimeoutError"

/-- `type(exc).__name__`. -/
def typeName : Exception → Text
  | .protocolError _ => str "ProtocolError"
  | .connectionError _ => str "ConnectionError"
  | .timeoutError _ => str "TimeoutError"
  | .authenticationError _ => str "AuthenticationError"
  | .noMechanismError _ _ => str "NoMechanismError"
  | .serverError kind _ _ _ => className kind
  | .checksumMismatchError _ _ _ => str "ChecksumMismatchError"
  | .foreign typeName _ => typeName

/-- `str(exc)`. -/
def message : Exception → Text
  | .protocolError message => message
  | .connectionError message => message
  | .timeoutError message => message
  | .authenticationError message => message
  | .noMechanismError offered tried => noMechanismText offered tried
  | .serverError _ code message path =>
      codeName code ++ str ": " ++ message ++
        (match path with
        | some path => if path = [] then [] else str " [" ++ path ++ str "]"
        | none => [])
  | .checksumMismatchError algorithm expected actual =>
      algorithm ++ str " mismatch: expected " ++ expected ++ str ", got " ++ actual
  | .foreign _ message => message

/-- `f"{type(exc).__name__}: {exc}"`, how the ladder records a failed rung. -/
def describe (error : Exception) : Text := error.typeName ++ str ": " ++ error.message

end Exception

end XRootDClient

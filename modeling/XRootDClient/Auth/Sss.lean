import XRootDClient.Crypto.Blowfish
import XRootDClient.Lib.Crc
import XRootDClient.Lib.Struct
import XRootDClient.Lib.Text

/-!
# Simple shared secret

The credential minted from a keytab entry: a header in the clear, and behind it a data
header, the user's name as one element and the check of both, sealed with the secret.
What the other side finds when it unseals is what was put together here.
-/

set_option autoImplicit false

namespace XRootDClient.Auth.Sss

open Lib Lib.BigEndian Crypto

def HDR_LEN : Nat := 16

def BASE_TIME : Int := 1222183880

def ENC_BF32 : UInt8 := 0x30

def OPT_USEDATA : UInt8 := 0x00

def TYPE_NAME : UInt8 := 0x01

def NONCE_LEN : Nat := 32

inductive Error
  | nonceLength (length : Nat)
  | cipher (error : Blowfish.Error)
  | struct (failure : Struct.Failure)
  deriving DecidableEq

structure SSSKey where
  id : Int
  secret : Bytes

def crc32 (data : Bytes) : Nat := (Crc.crc (0xEDB88320 : BitVec 32) 0 data).toNat

/-- The nonce, the time in 32 bits, three bytes left as they were and the options. -/
def dataHdr (nonce : Bytes) (genTime : Int) : Bytes :=
  nonce ++ encode 4 (genTime % 2 ^ 32).toNat ++ [0, 0, 0] ++ [OPT_USEDATA]

def userBytes (username : Text) : Bytes :=
  Text.encodeUtf8 (if username = [] then str "xrd" else username)

/-- The length an element declares, the NUL behind the name counted. -/
def ulen (user : Bytes) : Nat := min (user.length + 1) 64

def tlv (username : Text) : Bytes :=
  let user := userBytes username
  [TYPE_NAME, 0x00, UInt8.ofNat (ulen user)] ++ user.take (ulen user - 1) ++ [0]

/-- The header in the clear, with the packed number of the key. -/
def header (id : Bytes) : Bytes := [0x73, 0x73, 0x73, 0x00, 0x01, 0x00, 0x00, ENC_BF32] ++ id

/-- The bytes of a nonce: as many as asked for, or the ones given if they are enough. -/
def nonceOf (urandom : Nat → Bytes) : Option Bytes → Except Error Bytes
  | none => .ok (urandom NONCE_LEN)
  | some nonce =>
      if nonce.length ≠ NONCE_LEN then .error (.nonceLength nonce.length) else .ok nonce

/-- `build_credential`, with the source of random bytes and the clock's whole seconds. -/
def buildCredential (urandom : Nat → Bytes) (clock : Int) (key : SSSKey) (username : Text)
    (nonce : Option Bytes) (genTime : Option Int) : Except Error Bytes := do
  let nonce ← nonceOf urandom nonce
  let body := dataHdr nonce (genTime.getD (clock - BASE_TIME)) ++ tlv username
  let plain := body ++ encode 4 (crc32 body)
  let cipher ← (Blowfish.Cipher.new key.secret).mapError .cipher
  let sealedBytes ← (cipher.encryptCfb64 (List.replicate 8 0) plain).mapError .cipher
  let id ← (Struct.packWhole 8 true key.id).mapError .struct
  return header id ++ sealedBytes

/-- The name in the element: as much of it as leaves room for the NUL. -/
def nameBytes (username : Text) : Bytes := (userBytes username).take 63

theorem name_short (username : Text) : (nameBytes username).length ≤ 63 := by
  rw [nameBytes, List.length_take]
  exact Nat.min_le_left _ _

theorem ulen_counts (username : Text) :
    ulen (userBytes username) = (nameBytes username ++ [0]).length := by
  rw [ulen, nameBytes, List.length_append, List.length_take, List.length_singleton]
  omega

theorem tlv_parted (username : Text) :
    tlv username = [TYPE_NAME, 0x00, UInt8.ofNat (nameBytes username ++ [0]).length] ++
      (nameBytes username ++ [0]) := by
  have kept : (userBytes username).take (ulen (userBytes username) - 1) = nameBytes username := by
    rw [nameBytes, List.take_eq_take_iff, ulen]
    omega
  rw [tlv, kept, ulen_counts, List.append_assoc]

theorem name_no_nul {username : Text} (absent : Char.ofNat 0 ∉ username) :
    (0 : UInt8) ∉ nameBytes username := by
  have whole : (0 : UInt8) ∉ userBytes username := by
    rw [userBytes]
    split
    case isTrue => decide
    case isFalse => exact Text.encode_no_nul absent
  exact fun zero => whole (List.mem_of_mem_take zero)

/-- What a credential is meant to say: the nonce and the time's low 32 bits, the name with
its declared length, and the check of all before it. -/
def meant (nonce : Bytes) (genTime : Int) (username : Text) : Bytes :=
  let body := nonce ++ encode 4 (genTime % 2 ^ 32).toNat ++ [0, 0, 0, 0] ++
    ([0x01, 0x00, UInt8.ofNat (nameBytes username ++ [0]).length] ++ (nameBytes username ++ [0]))
  body ++ encode 4 (crc32 body)

theorem body_meant (nonce : Bytes) (genTime : Int) (username : Text) :
    dataHdr nonce genTime ++ tlv username ++
      encode 4 (crc32 (dataHdr nonce genTime ++ tlv username)) = meant nonce genTime username := by
  have joined : dataHdr nonce genTime ++ tlv username =
      nonce ++ encode 4 (genTime % 2 ^ 32).toNat ++ [0, 0, 0, 0] ++
        ([0x01, 0x00, UInt8.ofNat (nameBytes username ++ [0]).length] ++
          (nameBytes username ++ [0])) := by
    rw [dataHdr, tlv_parted, List.append_assoc (nonce ++ _)]
    rfl
  rw [joined, meant]

theorem keyed_ok {key : Bytes} (some_ : key ≠ []) (short : key.length ≤ 56) :
    Blowfish.Cipher.new key = .ok (Blowfish.keyed key) := by
  rw [Blowfish.Cipher.new, if_neg some_, if_neg (Nat.not_lt.mpr short)]

theorem unsealed {urandom : Nat → Bytes} {clock : Int} {key : SSSKey} {username : Text}
    {nonce : Option Bytes} {genTime : Option Int} {used : Bytes} (some_ : key.secret ≠ [])
    (short : key.secret.length ≤ 56) (fits : Struct.Fits 8 true key.id)
    (chosen : nonceOf urandom nonce = .ok used) :
    ∃ blob, buildCredential urandom clock key username nonce genTime = .ok blob ∧
      (Blowfish.keyed key.secret).decryptCfb64 (List.replicate 8 0) (blob.drop HDR_LEN) =
        .ok (meant used (genTime.getD (clock - BASE_TIME)) username) := by
  obtain ⟨sealedBytes, into, -, back⟩ := @Blowfish.Cipher.cfb64_undone
    (Blowfish.keyed key.secret) (List.replicate 8 0) rfl
    (meant used (genTime.getD (clock - BASE_TIME)) username)
  -- the secret is taken, the body sealed and the number packed, and nothing is refused
  have packed : Struct.packWhole 8 true key.id = .ok (encode 8 (unsigned 8 key.id)) := if_pos fits
  refine ⟨header (encode 8 (unsigned 8 key.id)) ++ sealedBytes, ?_, ?_⟩
  · rw [buildCredential, chosen]
    simp only [bind, Except.bind, body_meant, keyed_ok some_ short, Except.mapError, into, packed]
    rfl
  · have front : (header (encode 8 (unsigned 8 key.id))).length = HDR_LEN := by
      rw [header, List.length_append, encode_length]
      rfl
    rw [List.drop_left' front]
    exact back

/-- Any secret the cipher takes undoes itself, block and feedback alike, and a credential
minted with it unseals to what was meant: the element declares as many bytes as follow,
64 at most, the last of them the NUL. -/
theorem credential_unseals {key : SSSKey} (nonempty : 1 ≤ key.secret.length)
    (short : key.secret.length ≤ 56) :
    ∃ cipher, Blowfish.Cipher.new key.secret = .ok cipher ∧
      (∀ left right, cipher.decryptBlock (cipher.encryptBlock left right).1
        (cipher.encryptBlock left right).2 = (left, right)) ∧
      (∀ iv data : Bytes, iv.length = 8 →
        ∃ sealedData, cipher.encryptCfb64 iv data = .ok sealedData ∧
          cipher.decryptCfb64 iv sealedData = .ok data) ∧
      ∀ urandom clock username nonce genTime used, Struct.Fits 8 true key.id →
        nonceOf urandom nonce = .ok used →
        (∃ blob, buildCredential urandom clock key username nonce genTime = .ok blob ∧
          cipher.decryptCfb64 (List.replicate 8 0) (blob.drop HDR_LEN) =
            .ok (meant used (genTime.getD (clock - BASE_TIME)) username)) ∧
        (UInt8.ofNat (nameBytes username ++ [0]).length).toNat =
          (nameBytes username ++ [0]).length ∧
        (nameBytes username ++ [0]).length ≤ 64 ∧
        (Char.ofNat 0 ∉ username → (nameBytes username ++ [0]).count 0 = 1) := by
  have some_ : key.secret ≠ [] := List.ne_nil_of_length_pos nonempty
  refine ⟨_, keyed_ok some_ short, Blowfish.Cipher.block_undone, ?_, ?_⟩
  · intro iv data eight
    obtain ⟨sealedData, into, -, back⟩ := @Blowfish.Cipher.cfb64_undone
      (Blowfish.keyed key.secret) iv eight data
    exact ⟨sealedData, into, back⟩
  · intro urandom clock username nonce genTime used fits chosen
    have size : (nameBytes username ++ [0]).length ≤ 64 := by
      have cut := name_short username
      rw [List.length_append, List.length_singleton]
      omega
    refine ⟨unsealed some_ short fits chosen, ?_, size, ?_⟩
    · exact UInt8.toNat_ofNat_of_lt' (lt_of_le_of_lt size (by decide))
    · intro absent
      rw [List.count_append, List.count_eq_zero.mpr (name_no_nul absent)]
      rfl

theorem long_name_unsealed :
    let key : SSSKey := ⟨-1, [0x6B]⟩
    let name : Text := List.replicate 70 (Char.ofNat 0xE9)
    (∃ blob, buildCredential (fun n => List.replicate n 7) 0 key name none (some 5) = .ok blob ∧
      (Blowfish.keyed key.secret).decryptCfb64 (List.replicate 8 0) (blob.drop HDR_LEN) =
        .ok (meant (List.replicate 32 7) 5 name)) ∧
      (nameBytes name ++ [0]).length = 64 := by
  obtain ⟨cipher, known, -, -, minted⟩ :=
    @credential_unseals ⟨-1, [0x6B]⟩ (by decide) (by decide)
  have same : Blowfish.keyed [0x6B] = cipher := Except.ok.inj known
  refine ⟨?_, by decide +kernel⟩
  rw [same]
  exact (minted _ 0 _ none (some 5) _ (by decide) rfl).1

/-- A time past 32 bits is not in the credential, and a name's own NUL stands before the
one that ends it. -/
theorem late_time_lost :
    let key : SSSKey := ⟨0, [0x6B]⟩
    let name : Text := [Char.ofNat 0]
    let nonce : Bytes := List.replicate 32 7
    (buildCredential (fun n => List.replicate n 0) 0 key name (some nonce) (some (2 ^ 32)) =
      buildCredential (fun n => List.replicate n 0) 0 key name (some nonce) (some 0)) ∧
      (∃ blob, buildCredential (fun n => List.replicate n 0) 0 key name (some nonce)
          (some (2 ^ 32)) = .ok blob ∧
        (Blowfish.keyed key.secret).decryptCfb64 (List.replicate 8 0) (blob.drop HDR_LEN) =
          .ok (meant nonce 0 name)) ∧
      (nameBytes name ++ [0]).count 0 = 2 := by
  refine ⟨rfl, ?_, by decide +kernel⟩
  exact @unsealed _ 0 _ _ _ (some (2 ^ 32)) _ (by decide) (by decide) (by decide) rfl

end XRootDClient.Auth.Sss

import XRootDClient.Auth.Gsi

/-!
# The rounds of grid security

A client asks for a certificate and answers the challenge it gets: it agrees a key over
the server's group, seals its chain under that key and signs the server's tag. A server
that reads the answer with its own private value comes to the key, opens what was sealed
and finds the chain, and the signature there is one of its tag and of no other.

What `os.urandom` gives, the hashes and the proxy are given.
-/

set_option autoImplicit false

namespace XRootDClient.Auth.Gsi

open Lib Lib.BigEndian Lib.Stateful Crypto Crypto.Rsa

def STEP_SERVER_CERT : Int := 2001
def STEP_SERVER_PXYREQ : Int := 2002

def BUCKET_VERSION : Int := 3014
def BUCKET_CLNT_OPTS : Int := 3019
def BUCKET_ISSUER_HASH : Int := 3023

/-- Below the version that would have the server sign its public value. -/
def VERSION_UNSIGNED_DH : Int := 10300
def CLIENT_OPTS_DEFAULT : Int := 0x80

inductive Refusal
  | expired
  | notRsa
  | delegation
  | unexpectedStep (step : Int)
  | notAscii
  | gsi (error : Error)
  deriving DecidableEq

def encodeAscii (text : Text) : Except Refusal Bytes :=
  if text.all fun char => char.toNat < 128 then .ok (text.map fun char => UInt8.ofNat char.toNat)
  else .error .notAscii

/-- What `os.urandom` gives, for a private exponent of so many bytes and for a tag. -/
structure Draws where
  private_ : Nat → Bytes
  rtag : Bytes

def certreqBuckets (cryptomod issuerHash version options inner : Bytes) : List Bucket :=
  [⟨BUCKET_CRYPTOMOD, cryptomod⟩, ⟨BUCKET_VERSION, version⟩, ⟨BUCKET_ISSUER_HASH, issuerHash⟩,
    ⟨BUCKET_CLNT_OPTS, options⟩, ⟨BUCKET_MAIN, inner⟩]

def buildCertreq (cryptomod : Text) (version : Int) (issuerHash : Text) (options : Int)
    (rtag : Bytes) : Except Refusal Bytes := do
  let packed := fun value => (Struct.packWhole 4 false value).mapError fun failure =>
    Refusal.gsi (.struct failure)
  let written := fun buckets => (encodeMessage STEP_CLIENT_CERTREQ buckets).mapError fun failure =>
    Refusal.gsi (.struct failure)
  let inner ← written [⟨BUCKET_RTAG, rtag⟩]
  let cryptomod ← encodeAscii (if cryptomod = [] then str "ssl" else cryptomod)
  let version ← packed version
  let issuerHash ← encodeAscii issuerHash
  let options ← packed options
  written (certreqBuckets cryptomod issuerHash version options inner)

def exponent (draws : Draws) (peer : PeerPublic) : Option Int → Except Error Int
  | some private_ => .ok private_
  | none =>
      let drawn : Int := decode (draws.private_ ((peer.p.natAbs.size + 7) / 8))
      if peer.p - 3 = 0 then .error .zeroDivision else .ok (2 + drawn.fmod (peer.p - 3))

def serverTag (challenge : Bytes) : Option Bytes :=
  match findBucket challenge BUCKET_MAIN with
  | none => none
  | some main => findBucket main BUCKET_RTAG

def possession (hash : String → Bytes → Bytes) (key : RSAPrivateKey) :
    Option Bytes → Except Error (List Bucket)
  | none => .ok []
  | some tag =>
      if tag = [] then .ok []
      else do
        let signature ← (key.sign hash tag none).mapError .rsa
        return [⟨BUCKET_SIGNED_RTAG, signature⟩]

def sealedBuckets (chainPem : Bytes) (proof : List Bucket) (rtag : Bytes) : List Bucket :=
  [⟨BUCKET_X509, chainPem⟩] ++ proof ++ [⟨BUCKET_RTAG, rtag⟩]

def responseBuckets (blob sealed : Bytes) : List Bucket :=
  [⟨BUCKET_CRYPTOMOD, bytes "ssl"⟩, ⟨BUCKET_PUK, blob⟩, ⟨BUCKET_CIPHER_ALG, bytes "aes-128-cbc"⟩,
    ⟨BUCKET_MD_ALG, bytes "sha256"⟩, ⟨BUCKET_MAIN, sealed⟩]

def IV : Bytes := List.replicate Aes.BLOCK_SIZE 0

/-- `build_cert_response`, on the public value the challenge carries. -/
def answer (hash : String → Bytes → Bytes) (draws : Draws) (challenge chainPem blob : Bytes)
    (key : RSAPrivateKey) (private_ : Option Int) (rtag : Option Bytes) : Except Error Bytes := do
  let peer ← parsePeerBlob blob
  let private_ ← exponent draws peer private_
  let secret ← sessionKey peer private_ SESSION_KEY_LEN
  let proof ← possession hash key (serverTag challenge)
  let inner := sealedBuckets chainPem proof (rtag.getD draws.rtag)
  let plain ← (encodeMessage STEP_CLIENT_CERT inner).mapError .struct
  let sealed ← (Aes.cbcEncrypt secret plain IV true).mapError .aes
  let own ← (Powers.pow peer.g private_ peer.p).mapError .power
  let blob ← encodePublicBlob peer.paramsPem own
  (encodeMessage STEP_CLIENT_CERT (responseBuckets blob sealed)).mapError .struct

def buildCertResponse (hash : String → Bytes → Bytes) (draws : Draws) (challenge chainPem : Bytes)
    (key : RSAPrivateKey) (private_ : Option Int) (rtag : Option Bytes) : Except Error Bytes :=
  match findBucket challenge BUCKET_PUK with
  | none =>
      if (findBucket challenge BUCKET_CIPHER).isSome then .error .signedDh else .error .noPublic
  | some blob => answer hash draws challenge chainPem blob key private_ rtag

/-- What `x509` tells of a proxy: its chain, its key where that is one of RSA, and whether
any of its certificates has expired. -/
structure ProxyCredential where
  pem : Bytes
  key : Option RSAPrivateKey
  expired : Bool

structure GSICredential where
  proxy : ProxyCredential
  cryptomod : Text
  issuerHash : Text
  rtag : Bytes

def GSICredential.new (proxy : ProxyCredential) (cryptomod issuerHash : Text) : GSICredential :=
  ⟨proxy, if cryptomod = [] then str "ssl" else cryptomod, issuerHash, []⟩

def GSICredential.initial (credential : GSICredential) (draws : Draws) :
    Except Refusal (Bytes × GSICredential) :=
  if credential.proxy.expired then .error .expired
  else do
    let request ← buildCertreq credential.cryptomod VERSION_UNSIGNED_DH credential.issuerHash
      CLIENT_OPTS_DEFAULT draws.rtag
    return (request, { credential with rtag := draws.rtag })

def GSICredential.step (hash : String → Bytes → Bytes) (draws : Draws) (credential : GSICredential)
    (challenge : Bytes) : Except Refusal Bytes := do
  let (step, _) ← (decodeMessage challenge).mapError .gsi
  if step = STEP_SERVER_CERT then
    match credential.proxy.key with
    | none => .error .notRsa
    | some key =>
        (buildCertResponse hash draws challenge credential.proxy.pem key none none).mapError .gsi
  else if step = STEP_SERVER_PXYREQ then .error .delegation
  else .error (.unexpectedStep step)

theorem word_packed {value : Int} {packed : Bytes}
    (written : Struct.packWhole 4 false value = .ok packed) : Word value := by
  rw [Struct.packWhole] at written
  by_cases fits : Struct.Fits 4 false value
  · exact fits
  · rw [if_neg fits] at written
    cases written

theorem buckets_packed {buckets : List Bucket} {packed : Bytes}
    (written : encodeBuckets buckets = .ok packed) :
    ∀ bucket ∈ buckets, Word bucket.type ∧ bucket.data.length < 2 ^ 32 := by
  induction buckets generalizing packed with
  | nil =>
      intro bucket member
      cases member
  | cons first rest induction =>
      rw [encodeBuckets] at written
      obtain ⟨front, here, written⟩ := except_returns written
      obtain ⟨others, later, -⟩ := except_returns written
      rw [Bucket.pack] at here
      obtain ⟨type, typed, here⟩ := except_returns here
      obtain ⟨length, sized, -⟩ := except_returns here
      intro bucket member
      cases member with
      | head => exact ⟨word_packed typed, by exact_mod_cast (word_packed sized).2⟩
      | tail _ inside => exact induction later bucket inside

section Sent

variable {step : Int} {buckets : List Bucket} {message : Bytes}

theorem sent_read (written : encodeMessage step buckets = .ok message)
    (some_ : ∀ bucket ∈ buckets, bucket.type ≠ 0) :
    decodeMessage message = .ok (step, buckets) := by
  have parts := written
  rw [encodeMessage] at parts
  obtain ⟨front, stepped, parts⟩ := except_returns parts
  obtain ⟨packed, carried, -⟩ := except_returns parts
  have fit : ∀ bucket ∈ buckets, bucket.Fits := by
    intro bucket member
    have sized := buckets_packed carried bucket member
    exact ⟨sized.1, some_ bucket member, sized.2⟩
  obtain ⟨same, again, read⟩ := message_read (word_packed stepped) fit
  rw [written] at again
  cases again
  have bare := read []
  rwa [List.append_nil] at bare

theorem found_sent (written : encodeMessage step buckets = .ok message)
    (some_ : ∀ bucket ∈ buckets, bucket.type ≠ 0) (kind : Int) :
    findBucket message kind = (buckets.find? (·.type = kind)).map Bucket.data := by
  rw [findBucket, sent_read written some_]

def asked (buckets : List Bucket) : Option Bytes :=
  match buckets.find? (·.type = BUCKET_MAIN) with
  | none => none
  | some main => findBucket main.data BUCKET_RTAG

theorem server_tag_sent (written : encodeMessage step buckets = .ok message)
    (some_ : ∀ bucket ∈ buckets, bucket.type ≠ 0) : serverTag message = asked buckets := by
  rw [serverTag, asked, found_sent written some_]
  cases buckets.find? (·.type = BUCKET_MAIN) with
  | none => rfl
  | some main => rfl

end Sent

theorem zero_power {exponent p secret : Int} (raised : Powers.pow 0 exponent p = .ok secret) :
    secret ≤ 1 := by
  rw [Powers.pow] at raised
  by_cases none_ : p = 0
  · rw [if_pos none_] at raised
    cases raised
  rw [if_neg none_] at raised
  by_cases single : p.natAbs = 1
  · rw [if_pos single] at raised
    cases raised
    decide
  rw [if_neg single] at raised
  by_cases negative : exponent < 0
  · -- zero has no inverse
    have bare : Powers.inverse 0 p.natAbs = none := by
      rw [Powers.inverse, if_neg]
      rw [Int.gcd_zero_left, Int.natAbs_natCast]
      exact single
    rw [if_pos negative, bare] at raised
    cases raised
  · rw [if_neg negative] at raised
    cases raised
    have below : (0 : Int) ^ exponent.natAbs % p.natAbs ≤ 1 := by
      cases exponent.natAbs with
      | zero =>
          rw [pow_zero, Int.emod_eq_of_lt (by decide) (by omega)]
      | succ more =>
          rw [zero_pow (Nat.succ_ne_zero more), Int.zero_emod]
          decide
    rw [Powers.signedResidue]
    split
    · omega
    · exact below

theorem zero_short {params secret : Bytes} {p g private_ : Int} :
    sessionKey ⟨params, p, g, 0⟩ private_ SESSION_KEY_LEN ≠ .ok secret := by
  intro agreed
  rw [sessionKey] at agreed
  obtain ⟨value, raised, agreed⟩ := except_returns agreed
  obtain ⟨raw, written, agreed⟩ := except_returns agreed
  have small : value ≤ 1 := by
    cases power : Powers.pow 0 private_ p with
    | error failure =>
        rw [power] at raised
        cases raised
    | ok found =>
        rw [power] at raised
        cases raised
        exact zero_power power
  have few : raw.length < SESSION_KEY_LEN := by
    rw [minimalBytes] at written
    by_cases negative : value < 0
    · rw [if_pos negative] at written
      cases written
    · rw [if_neg negative] at written
      cases written
      rw [Minimal.to_bytes_length]
      have room : Minimal.width value.toNat ≤ 1 := Minimal.width_le.mpr (by omega)
      exact lt_of_le_of_lt room (by decide)
  rw [if_pos few] at agreed
  cases agreed

theorem mapped_ok {Kind Other Value : Type} {turn : Kind → Other} {first : Except Kind Value}
    {value : Value} (returned : first.mapError turn = .ok value) : first = .ok value := by
  cases first with
  | error error => cases returned
  | ok found =>
      cases returned
      rfl

theorem key_length {peer : PeerPublic} {private_ : Int} {length : Nat} {secret : Bytes}
    (agreed : sessionKey peer private_ length = .ok secret) : secret.length = length := by
  rw [sessionKey] at agreed
  obtain ⟨value, -, agreed⟩ := except_returns agreed
  obtain ⟨raw, -, agreed⟩ := except_returns agreed
  by_cases few : raw.length < length
  · rw [if_pos few] at agreed
    cases agreed
  · rw [if_neg few] at agreed
    cases agreed
    rw [List.length_take]
    omega

/-- A challenge of an unsigned public value, as a server with its private value makes it. -/
structure Posed (buckets : List Bucket) (params : Bytes) (p g server : Int) : Prop where
  some_ : ∀ bucket ∈ buckets, bucket.type ≠ 0
  unmarked : Unmarked params
  group : parseDhParameters params = .ok (p, g)
  offered : ∃ own blob, Powers.pow g server p = .ok own ∧ 0 < own ∧
    encodePublicBlob params own = .ok blob ∧
      buckets.find? (·.type = BUCKET_PUK) = some ⟨BUCKET_PUK, blob⟩

/-- What the sealed part of an answer says about the tag the server asked to be signed. -/
def Proved (hash : String → Bytes → Bytes) (key : RSAPrivateKey) (plain : Bytes) :
    Option Bytes → Prop
  | some (byte :: rest) => ∃ signature, findBucket plain BUCKET_SIGNED_RTAG = some signature ∧
      ∀ tag, key.public.verify hash tag signature none = .ok true ↔ tag = byte :: rest
  | _ => findBucket plain BUCKET_SIGNED_RTAG = none

theorem signature_of {hash : String → Bytes → Bytes} {key : RSAPrivateKey} {tag signature : Bytes}
    (sound : key.Sound) (signed : key.sign hash tag none = .ok signature) (other : Bytes) :
    key.public.verify hash other signature none = .ok true ↔ other = tag := by
  obtain ⟨block, made, verified⟩ := sound.verified signed
  rw [verified]
  constructor
  · intro accepted
    cases padded_ : pkcs1V15Pad hash other key.size none with
    | error error =>
        rw [padded_] at accepted
        cases accepted
    | ok expected =>
        rw [padded_] at accepted
        have same : (block == expected) = true := Except.ok.inj accepted
        rw [← eq_of_beq same] at padded_
        exact padding_injective padded_ made
  · intro same
    rw [same, made]
    exact congrArg Except.ok (beq_self_eq_true block)

theorem sealed_found {hash : String → Bytes → Bytes} {key : RSAPrivateKey} {tag : Option Bytes}
    {proof : List Bucket} {chain rtag plain : Bytes} (sound : key.Sound)
    (possessed : possession hash key tag = .ok proof)
    (written : encodeMessage STEP_CLIENT_CERT (sealedBuckets chain proof rtag) = .ok plain) :
    findBucket plain BUCKET_X509 = some chain ∧ findBucket plain BUCKET_RTAG = some rtag ∧
      Proved hash key plain tag := by
  have none_ : proof = [] → findBucket plain BUCKET_X509 = some chain ∧
      findBucket plain BUCKET_RTAG = some rtag ∧ findBucket plain BUCKET_SIGNED_RTAG = none := by
    intro empty
    rw [empty] at written
    have found := found_sent written (by
      intro bucket member
      rcases List.mem_pair.mp member with rfl | rfl <;> exact of_decide_eq_true rfl)
    exact ⟨found _, found _, found _⟩
  cases tag with
  | none =>
      cases possessed
      exact none_ rfl
  | some tag =>
      cases tag with
      | nil =>
          cases possessed
          exact none_ rfl
      | cons byte rest =>
          rw [possession, if_neg (List.cons_ne_nil byte rest)] at possessed
          obtain ⟨signature, signed, possessed⟩ := except_returns possessed
          cases possessed
          have found := found_sent written (by
            intro bucket member
            simp only [sealedBuckets, List.cons_append, List.nil_append, List.mem_cons,
              List.not_mem_nil, or_false] at member
            rcases member with rfl | rfl | rfl <;> exact of_decide_eq_true rfl)
          exact ⟨found _, found _, signature, found _, signature_of sound (mapped_ok signed)⟩

/-- An answer to the public value of a server is opened with the server's private value. -/
theorem answer_opened {hash : String → Bytes → Bytes} {draws : Draws} {key : RSAPrivateKey}
    {challenge chain params blob message : Bytes} {p g server other : Int}
    (sound : key.Sound) (unmarked : Unmarked params)
    (group : parseDhParameters params = .ok (p, g)) (there : Powers.pow g server p = .ok other)
    (positive : 0 < other) (offered : encodePublicBlob params other = .ok blob)
    {given : Option Int} {tag : Option Bytes}
    (answered : answer hash draws challenge chain blob key given tag = .ok message) :
    ∃ own blob sealed secret plain,
      decodeMessage message = .ok (STEP_CLIENT_CERT, responseBuckets blob sealed) ∧
      parsePeerBlob blob = .ok ⟨params, p, g, own⟩ ∧
      sessionKey ⟨params, p, g, own⟩ server SESSION_KEY_LEN = .ok secret ∧
      Aes.cbcDecrypt secret sealed IV true = .ok plain ∧
      findBucket plain BUCKET_X509 = some chain ∧
      findBucket plain BUCKET_RTAG = some (tag.getD draws.rtag) ∧
      Proved hash key plain (serverTag challenge) := by
  rw [answer] at answered
  obtain ⟨peer, parsed, answered⟩ := except_returns answered
  obtain ⟨same, written, read⟩ := blob_read unmarked positive group
  rw [offered] at written
  cases written
  rw [read] at parsed
  cases parsed
  obtain ⟨first, -, answered⟩ := except_returns answered
  obtain ⟨secret, agreed, answered⟩ := except_returns answered
  obtain ⟨proof, possessed, answered⟩ := except_returns answered
  obtain ⟨plain, inner, answered⟩ := except_returns answered
  obtain ⟨sealed, encrypted, answered⟩ := except_returns answered
  obtain ⟨own, here, answered⟩ := except_returns answered
  obtain ⟨echoed, returned, answered⟩ := except_returns answered
  have here := mapped_ok here
  -- both ends come to one key, so that the public value sent is not zero
  have key_ : sessionKey ⟨params, p, g, own⟩ server SESSION_KEY_LEN = .ok secret := by
    rw [← keys_same here there params SESSION_KEY_LEN]
    exact agreed
  have some_ : 0 < own := by
    have low : 0 ≤ own := by
      by_contra negative
      rw [encodePublicBlob, minimalBytes, if_pos (by omega)] at returned
      cases returned
    have nonzero : own ≠ 0 := by
      intro zero
      rw [zero] at key_
      exact zero_short key_
    omega
  obtain ⟨again, written, reread⟩ := blob_read unmarked some_ group
  rw [returned] at written
  cases written
  obtain ⟨sealed_, encrypted_, decrypted, -⟩ :=
    Aes.cbc_returns (.inl (key_length agreed)) (show IV.length = 16 from rfl) plain
  rw [encrypted_] at encrypted
  cases encrypted
  refine ⟨own, echoed, sealed, secret, plain, ?_, reread, key_, decrypted,
    sealed_found sound possessed (mapped_ok inner)⟩
  apply sent_read (mapped_ok answered)
  intro bucket member
  simp only [responseBuckets, List.mem_cons, List.not_mem_nil, or_false] at member
  rcases member with rfl | rfl | rfl | rfl | rfl <;> exact of_decide_eq_true rfl

/-- A request is read with the tag it was made with, and asks for an unsigned public value. -/
theorem request_read {opening : Draws} {fresh credential : GSICredential} {request : Bytes}
    (began : fresh.initial opening = .ok (request, credential)) :
    fresh.proxy.expired = false ∧ credential = { fresh with rtag := opening.rtag } ∧
      ∃ cryptomod issuerHash version options inner,
        decodeMessage request = .ok (STEP_CLIENT_CERTREQ,
          certreqBuckets cryptomod issuerHash version options inner) ∧
        encodeAscii fresh.issuerHash = .ok issuerHash ∧
        (decode version : Int) = VERSION_UNSIGNED_DH ∧
        (decode options : Int) = CLIENT_OPTS_DEFAULT ∧
        findBucket inner BUCKET_RTAG = some opening.rtag := by
  rw [GSICredential.initial] at began
  cases expired : fresh.proxy.expired with
  | true =>
      rw [expired, if_pos rfl] at began
      cases began
  | false =>
      rw [expired, if_neg Bool.false_ne_true] at began
      obtain ⟨made, built, began⟩ := except_returns began
      cases began
      refine ⟨rfl, rfl, ?_⟩
      rw [buildCertreq] at built
      obtain ⟨inner, nested, built⟩ := except_returns built
      obtain ⟨cryptomod, -, built⟩ := except_returns built
      obtain ⟨version, packed, built⟩ := except_returns built
      obtain ⟨issuerHash, hashed, built⟩ := except_returns built
      obtain ⟨options, chosen, built⟩ := except_returns built
      have tagged := found_sent (mapped_ok nested) (by
        intro bucket member
        rw [List.mem_singleton.mp member]
        exact of_decide_eq_true rfl) BUCKET_RTAG
      have whole : ∀ bucket ∈ certreqBuckets cryptomod issuerHash version options inner,
          bucket.type ≠ 0 := by
        intro bucket member
        simp only [certreqBuckets, List.mem_cons, List.not_mem_nil, or_false] at member
        rcases member with rfl | rfl | rfl | rfl | rfl <;> exact of_decide_eq_true rfl
      have versioned : Word VERSION_UNSIGNED_DH := ⟨by decide, by decide⟩
      have optioned : Word CLIENT_OPTS_DEFAULT := ⟨by decide, by decide⟩
      have front := mapped_ok packed
      have behind := mapped_ok chosen
      rw [pack_word versioned] at front
      rw [pack_word optioned] at behind
      cases front
      cases behind
      exact ⟨cryptomod, issuerHash, _, _, inner, sent_read (mapped_ok built) whole, hashed,
        decode_word versioned, decode_word optioned, tagged⟩

/-- A server that reads the answer to its challenge with its own private value comes to
the key it was sealed under, and finds the chain, the client's tag and the proof that the
client has the key of the chain. -/
theorem handshake_agrees {hash : String → Bytes → Bytes} {opening draws : Draws}
    {fresh credential : GSICredential} {key : RSAPrivateKey}
    {request challenge message params : Bytes} {buckets : List Bucket} {p g server : Int}
    (sound : key.Sound) (held : fresh.proxy.key = some key)
    (began : fresh.initial opening = .ok (request, credential))
    (posed : Posed buckets params p g server)
    (sent : encodeMessage STEP_SERVER_CERT buckets = .ok challenge)
    (answered : credential.step hash draws challenge = .ok message) :
    (∃ cryptomod issuerHash version options inner,
      decodeMessage request = .ok (STEP_CLIENT_CERTREQ,
        certreqBuckets cryptomod issuerHash version options inner) ∧
      encodeAscii fresh.issuerHash = .ok issuerHash ∧
      (decode version : Int) = VERSION_UNSIGNED_DH ∧
      (decode options : Int) = CLIENT_OPTS_DEFAULT ∧
      findBucket inner BUCKET_RTAG = some opening.rtag) ∧
    ∃ own blob sealed secret plain,
      decodeMessage message = .ok (STEP_CLIENT_CERT, responseBuckets blob sealed) ∧
      parsePeerBlob blob = .ok ⟨params, p, g, own⟩ ∧
      sessionKey ⟨params, p, g, own⟩ server SESSION_KEY_LEN = .ok secret ∧
      Aes.cbcDecrypt secret sealed IV true = .ok plain ∧
      findBucket plain BUCKET_X509 = some fresh.proxy.pem ∧
      findBucket plain BUCKET_RTAG = some draws.rtag ∧
      Proved hash key plain (asked buckets) := by
  obtain ⟨-, rfl, asked_⟩ := request_read began
  refine ⟨asked_, ?_⟩
  obtain ⟨other, blob, there, positive, offered, listed⟩ := posed.offered
  have carried : findBucket challenge BUCKET_PUK = some blob := by
    rw [found_sent sent posed.some_, listed]
    rfl
  rw [GSICredential.step, sent_read sent posed.some_] at answered
  simp only [Except.mapError, bind, Except.bind, if_true, held] at answered
  have built := mapped_ok answered
  rw [buildCertResponse, carried] at built
  have opened := answer_opened sound posed.unmarked posed.group there positive offered built
  rwa [server_tag_sent sent posed.some_] at opened

theorem message_made {step : Int} {buckets : List Bucket} (word_ : Word step)
    (fit : ∀ bucket ∈ buckets, bucket.Fits) :
    encodeMessage step buckets =
      .ok (NAME ++ encode 4 step.toNat ++ buckets.flatMap Bucket.bytes ++ encode 4 BUCKET_NONE) := by
  have zero : Word (BUCKET_NONE : Int) := ⟨le_rfl, by decide⟩
  rw [encodeMessage, pack_word word_, encode_buckets_ok fit, pack_word zero]
  rfl

theorem bucket_fits {kind : Int} {data : Bytes} (low : 0 < kind) (high : kind < 2 ^ 32)
    (short : data.length < 2 ^ 32) : Bucket.Fits ⟨kind, data⟩ :=
  ⟨⟨le_of_lt low, high⟩, ne_of_gt low, short⟩

section Returned

variable {Kind Other Value Result : Type} {first : Except Kind Value} {value : Value}

theorem bind_of {rest : Value → Except Kind Result} (returned : first = .ok value) :
    (first >>= rest) = rest value := by
  rw [returned]
  rfl

theorem map_of {turn : Kind → Other} (returned : first = .ok value) :
    first.mapError turn = .ok value := by
  rw [returned]
  rfl

end Returned

/-- Where a key is agreed and the tag is signed, the answer is made, unless it is too long
for its length fields. -/
theorem answer_returns {hash : String → Bytes → Bytes} {draws : Draws} {key : RSAPrivateKey}
    {challenge chain blob secret echoed : Bytes} {peer : PeerPublic} {private_ own : Int}
    {given : Option Int} {tag : Option Bytes} {proof : List Bucket}
    (parsed : parsePeerBlob blob = .ok peer) (chosen : exponent draws peer given = .ok private_)
    (agreed : sessionKey peer private_ SESSION_KEY_LEN = .ok secret)
    (possessed : possession hash key (serverTag challenge) = .ok proof)
    (raised : Powers.pow peer.g private_ peer.p = .ok own)
    (written : encodePublicBlob peer.paramsPem own = .ok echoed) (short : echoed.length < 2 ^ 32)
    (fit : ∀ bucket ∈ sealedBuckets chain proof (tag.getD draws.rtag), bucket.Fits)
    (room : ((sealedBuckets chain proof (tag.getD draws.rtag)).flatMap Bucket.bytes).length <
      2 ^ 31) :
    ∃ message, answer hash draws challenge chain blob key given tag = .ok message := by
  have step_ : Word STEP_CLIENT_CERT := ⟨by decide, by decide⟩
  have vector : IV.length = 16 := rfl
  obtain ⟨plain, inner, small⟩ : ∃ plain, encodeMessage STEP_CLIENT_CERT
      (sealedBuckets chain proof (tag.getD draws.rtag)) = .ok plain ∧ plain.length < 2 ^ 31 + 12 := by
    refine ⟨_, message_made step_ fit, ?_⟩
    have four : NAME.length = 4 := rfl
    rw [List.length_append, List.length_append, List.length_append, encode_length, encode_length, four]
    omega
  obtain ⟨sealed, encrypted, -, long⟩ :=
    Aes.cbc_returns (.inl (key_length agreed)) vector plain
  have sealed_short : sealed.length < 2 ^ 32 := by
    rw [long]
    omega
  have fits : ∀ bucket ∈ responseBuckets echoed sealed, bucket.Fits := by
    intro bucket member
    simp only [responseBuckets, List.mem_cons, List.not_mem_nil, or_false] at member
    rcases member with rfl | rfl | rfl | rfl | rfl
    · exact bucket_fits (by decide) (by decide) (by decide)
    · exact bucket_fits (by decide) (by decide) short
    · exact bucket_fits (by decide) (by decide) (by decide)
    · exact bucket_fits (by decide) (by decide) (by decide)
    · exact bucket_fits (by decide) (by decide) sealed_short
  obtain ⟨message, last⟩ : ∃ message,
      encodeMessage STEP_CLIENT_CERT (responseBuckets echoed sealed) = .ok message :=
    ⟨_, message_made step_ fits⟩
  refine ⟨message, ?_⟩
  rw [answer, bind_of parsed, bind_of chosen, bind_of agreed, bind_of possessed]
  dsimp only
  rw [bind_of (map_of inner), bind_of (map_of encrypted), bind_of (map_of raised), bind_of written]
  exact map_of last

theorem certreq_returns {cryptomod issuerHash : Text} {module hashed rtag : Bytes}
    (first : encodeAscii (if cryptomod = [] then str "ssl" else cryptomod) = .ok module)
    (second : encodeAscii issuerHash = .ok hashed) (short : module.length < 2 ^ 32)
    (fits : hashed.length < 2 ^ 32) (small : rtag.length < 2 ^ 31) :
    ∃ request, buildCertreq cryptomod VERSION_UNSIGNED_DH issuerHash CLIENT_OPTS_DEFAULT rtag =
      .ok request := by
  have step_ : Word STEP_CLIENT_CERTREQ := ⟨by decide, by decide⟩
  have single : ∀ bucket ∈ ([⟨BUCKET_RTAG, rtag⟩] : List Bucket), bucket.Fits := by
    intro bucket member
    rw [List.mem_singleton.mp member]
    exact bucket_fits (by decide) (by decide) (by omega)
  obtain ⟨inner, nested, long⟩ : ∃ inner,
      encodeMessage STEP_CLIENT_CERTREQ [⟨BUCKET_RTAG, rtag⟩] = .ok inner ∧
        inner.length < 2 ^ 32 := by
    refine ⟨_, message_made step_ single, ?_⟩
    have four : NAME.length = 4 := rfl
    simp only [List.flatMap_cons, List.flatMap_nil, List.append_nil, Bucket.bytes,
      List.length_append, encode_length, four]
    omega
  have version : Struct.packWhole 4 false VERSION_UNSIGNED_DH =
      .ok (encode 4 VERSION_UNSIGNED_DH.toNat) := pack_word ⟨by decide, by decide⟩
  have options : Struct.packWhole 4 false CLIENT_OPTS_DEFAULT =
      .ok (encode 4 CLIENT_OPTS_DEFAULT.toNat) := pack_word ⟨by decide, by decide⟩
  have fit : ∀ bucket ∈ certreqBuckets module hashed (encode 4 VERSION_UNSIGNED_DH.toNat)
      (encode 4 CLIENT_OPTS_DEFAULT.toNat) inner, bucket.Fits := by
    intro bucket member
    simp only [certreqBuckets, List.mem_cons, List.not_mem_nil, or_false] at member
    rcases member with rfl | rfl | rfl | rfl | rfl
    · exact bucket_fits (by decide) (by decide) short
    · exact bucket_fits (by decide) (by decide) (by rw [encode_length]; decide)
    · exact bucket_fits (by decide) (by decide) fits
    · exact bucket_fits (by decide) (by decide) (by rw [encode_length]; decide)
    · exact bucket_fits (by decide) (by decide) long
  obtain ⟨request, made⟩ : ∃ request, encodeMessage STEP_CLIENT_CERTREQ
      (certreqBuckets module hashed (encode 4 VERSION_UNSIGNED_DH.toNat)
        (encode 4 CLIENT_OPTS_DEFAULT.toNat) inner) = .ok request := ⟨_, message_made step_ fit⟩
  refine ⟨request, ?_⟩
  rw [buildCertreq]
  dsimp only
  rw [bind_of (map_of nested), bind_of first, bind_of (map_of version), bind_of second,
    bind_of (map_of options)]
  exact map_of made

def largeParams : Bytes :=
  bytes "-----BEGIN DH PARAMETERS-----\nMBYCEUAAAAAAAAAAAAAAAAAAAAAAAgED\n-----END DH PARAMETERS-----\n"

def largeBase : Bytes := [0x02, 0x11, 0x40] ++ List.replicate 16 0 ++ [0x02, 0x01, 0x03]

theorem large_group : parseDhParameters largeParams = .ok (2 ^ 134, 3) := by
  have children : (⟨0x30, largeBase⟩ : Der.Element).children =
      .ok [⟨0x02, 0x40 :: List.replicate 16 0⟩, ⟨0x02, [0x03]⟩] := by
    refine Der.parse_all_iff.mpr
      ⟨[⟨0x02, [0x11], 0x40 :: List.replicate 16 0⟩, ⟨0x02, [0x01], [0x03]⟩], ?_, by decide, rfl⟩
    intro field member
    rcases List.mem_pair.mp member with rfl | rfl <;> exact ⟨by decide, by decide, by decide⟩
  have named : (Pem.pemBlocks largeParams).filter
      (fun block => Pem.endswith (str "PARAMETERS") block.1) =
      [(str "DH PARAMETERS", [0x30, 0x16] ++ largeBase)] := by decide +kernel
  have outer : Der.parse ([0x30, 0x16] ++ largeBase) 0 = .ok (⟨0x30, largeBase⟩, 24) := by
    decide +kernel
  rw [parseDhParameters, named]
  dsimp only
  rw [outer]
  simp only [Except.mapError, bind, Except.bind, children]
  decide +kernel

def largeBlob : Bytes :=
  largeParams ++ BPUB ++ Hex.hexlified (Minimal.toBytes (3 ^ 101 % 2 ^ 134)) ++ bytes "---EPUB---"

def tagBuckets : List Bucket := [⟨BUCKET_RTAG, [7]⟩]

def tagged : Bytes :=
  NAME ++ encode 4 STEP_SERVER_CERT.toNat ++ tagBuckets.flatMap Bucket.bytes ++ encode 4 BUCKET_NONE

def largeBuckets : List Bucket := [⟨BUCKET_PUK, largeBlob⟩, ⟨BUCKET_MAIN, tagged⟩]

def mersenneProxy : ProxyCredential := ⟨bytes "chain", some mersenneKey, false⟩

def largeFresh : GSICredential := .new mersenneProxy [] (str "1a2b3c4d.0")

def largeDraws : Draws := ⟨fun _ => [100], List.replicate 8 5⟩

def noHash (_ : String) (_ : Bytes) : Bytes := []

theorem large_tag : asked largeBuckets = some [7] := by
  have written : encodeMessage STEP_SERVER_CERT tagBuckets = .ok tagged := by
    apply message_made ⟨by decide, by decide⟩
    intro bucket member
    rw [List.mem_singleton.mp member]
    exact bucket_fits (by decide) (by decide) (by decide)
  have found := found_sent written (by
    intro bucket member
    rw [List.mem_singleton.mp member]
    decide) BUCKET_RTAG
  exact found

theorem large_posed : Posed largeBuckets largeParams (2 ^ 134) 3 101 where
  some_ := by
    intro bucket member
    rcases List.mem_pair.mp member with rfl | rfl <;> exact of_decide_eq_true rfl
  unmarked := ⟨by decide +kernel, by decide +kernel, by decide +kernel, by decide +kernel⟩
  group := large_group
  offered := ⟨3 ^ 101 % 2 ^ 134, largeBlob, by decide +kernel, by decide +kernel, by decide +kernel, rfl⟩

theorem seven_signed : ∃ signature, mersenneKey.sign noHash [7] none = .ok signature ∧
    signature.length = 12 := by
  have bits : mersenneKey.n.size = 92 := by
    apply Nat.le_antisymm
    · exact Nat.size_le.mpr (by decide)
    · exact Nat.lt_size.mpr (by decide)
  have size : mersenneKey.size = 12 := by
    rw [RSAPrivateKey.size, Rsa.sizeOf, bits]
  have made : pkcs1V15Pad noHash [7] mersenneKey.size none =
      .ok ([0, 1] ++ List.replicate 8 0xff ++ [0, 7]) := by
    rw [size]
    rfl
  refine ⟨_, mersenne_key_sound.sign_of made, ?_⟩
  rw [encode_length, size]

theorem large_handshake : ∃ request credential challenge message,
    largeFresh.initial largeDraws = .ok (request, credential) ∧
    encodeMessage STEP_SERVER_CERT largeBuckets = .ok challenge ∧
    credential.step noHash largeDraws challenge = .ok message ∧
    ∃ own blob sealed secret plain,
      decodeMessage message = .ok (STEP_CLIENT_CERT, responseBuckets blob sealed) ∧
      parsePeerBlob blob = .ok ⟨largeParams, 2 ^ 134, 3, own⟩ ∧
      sessionKey ⟨largeParams, 2 ^ 134, 3, own⟩ 101 SESSION_KEY_LEN = .ok secret ∧
      Aes.cbcDecrypt secret sealed IV true = .ok plain ∧
      findBucket plain BUCKET_X509 = some (bytes "chain") ∧
      findBucket plain BUCKET_RTAG = some (List.replicate 8 5) ∧
      Proved noHash mersenneKey plain (some [7]) := by
  have fit : ∀ bucket ∈ largeBuckets, bucket.Fits := by
    intro bucket member
    rcases List.mem_pair.mp member with rfl | rfl
    · exact bucket_fits (by decide) (by decide) (by decide +kernel)
    · exact bucket_fits (by decide) (by decide) (by decide +kernel)
  have step_ : Word STEP_SERVER_CERT := ⟨by decide, by decide⟩
  obtain ⟨challenge, sent⟩ : ∃ challenge, encodeMessage STEP_SERVER_CERT largeBuckets = .ok challenge :=
    ⟨_, message_made step_ fit⟩
  obtain ⟨request, began⟩ : ∃ request, largeFresh.initial largeDraws =
      .ok (request, { largeFresh with rtag := largeDraws.rtag }) := by
    have valid : ¬ largeFresh.proxy.expired = true := Bool.false_ne_true
    obtain ⟨request, made⟩ := certreq_returns (show encodeAscii (if str "ssl" = [] then str "ssl"
      else str "ssl") = .ok (bytes "ssl") by decide +kernel)
      (show encodeAscii (str "1a2b3c4d.0") = .ok (bytes "1a2b3c4d.0") by decide +kernel)
      (by decide +kernel) (by decide +kernel) (show (List.replicate 8 5 : Bytes).length < 2 ^ 31
        by decide)
    refine ⟨request, ?_⟩
    rw [GSICredential.initial, if_neg valid]
    exact bind_of made
  have carried : findBucket challenge BUCKET_PUK = some largeBlob := by
    rw [found_sent sent large_posed.some_]
    rfl
  have tagged_ : serverTag challenge = some [7] :=
    (server_tag_sent sent large_posed.some_).trans large_tag
  obtain ⟨signature, signed, twelve⟩ := seven_signed
  have possessed : possession noHash mersenneKey (serverTag challenge) =
      .ok [⟨BUCKET_SIGNED_RTAG, signature⟩] := by
    rw [tagged_, possession, if_neg (by decide), bind_of (map_of signed)]
    rfl
  obtain ⟨blob, written, read⟩ := blob_read large_posed.unmarked
    (by decide +kernel : (0 : Int) < 3 ^ 101 % 2 ^ 134) large_group
  have same : blob = largeBlob := by
    have again : encodePublicBlob largeParams (3 ^ 101 % 2 ^ 134) = .ok largeBlob := by decide +kernel
    exact Except.ok.inj (written.symm.trans again)
  rw [same] at read
  obtain ⟨message, answered⟩ : ∃ message,
      answer noHash largeDraws challenge (bytes "chain") largeBlob mersenneKey none none = .ok message := by
    have chosen : exponent largeDraws ⟨largeParams, 2 ^ 134, 3, 3 ^ 101 % 2 ^ 134⟩ none = .ok 102 := by
      decide +kernel
    have agreed : sessionKey ⟨largeParams, 2 ^ 134, 3, 3 ^ 101 % 2 ^ 134⟩ 102 SESSION_KEY_LEN =
        .ok ((Minimal.toBytes (3 ^ (101 * 102) % 2 ^ 134)).take 16) := by decide +kernel
    have raised : Powers.pow 3 102 (2 ^ 134) = .ok (3 ^ 102 % 2 ^ 134) := by decide +kernel
    have echoed : encodePublicBlob largeParams (3 ^ 102 % 2 ^ 134) =
        .ok (largeParams ++ BPUB ++ Hex.hexlified (Minimal.toBytes (3 ^ 102 % 2 ^ 134)) ++
          bytes "---EPUB---") := by decide +kernel
    apply answer_returns read chosen agreed possessed raised echoed (by decide +kernel)
    · intro bucket member
      simp only [sealedBuckets, List.cons_append, List.nil_append, List.mem_cons,
        List.not_mem_nil, or_false] at member
      rcases member with rfl | rfl | rfl
      · exact bucket_fits (by decide) (by decide) (by decide +kernel)
      · exact bucket_fits (by decide) (by decide) (by rw [twelve]; decide)
      · exact bucket_fits (by decide) (by decide) (by decide +kernel)
    · simp only [sealedBuckets, List.cons_append, List.nil_append, List.flatMap_cons,
        List.flatMap_nil, List.append_nil, Bucket.bytes, List.length_append, encode_length, twelve]
      decide +kernel
  have stepped : GSICredential.step noHash largeDraws
      { largeFresh with rtag := largeDraws.rtag } challenge = .ok message := by
    rw [GSICredential.step, bind_of (map_of (sent_read sent large_posed.some_))]
    dsimp only
    rw [if_pos rfl]
    apply map_of
    rw [buildCertResponse, carried]
    exact answered
  have completed := handshake_agrees mersenne_key_sound rfl began large_posed sent stepped
  rw [large_tag] at completed
  exact ⟨request, _, challenge, message, began, sent, stepped, completed.2⟩

end XRootDClient.Auth.Gsi

import XRootDClient.Crypto.Aes
import XRootDClient.Crypto.Der
import XRootDClient.Crypto.Pem
import XRootDClient.Crypto.Rsa
import XRootDClient.Lib.Hex
import XRootDClient.Lib.Powers
import XRootDClient.Lib.Search
import XRootDClient.Lib.Struct

/-!
# Grid security

The messages of the handshake, the public values that are carried in them and the key
both ends come to. A message is cut by the lengths it carries, so that nothing in a
bucket can end it; the public value is cut by marks, which the parameters in front of it
must neither hold nor begin; and the key is the same whichever end computes it.
-/

set_option autoImplicit false

namespace XRootDClient.Auth.Gsi

open Lib Lib.BigEndian Crypto

inductive Error
  | noName
  | noStep
  | noLength (kind : Nat)
  | pastEnd (kind claims available : Nat)
  | noPem
  | unreadable (error : Der.Error)
  | tooFew
  | malformed
  | notHex
  | shortSecret (length need : Nat)
  | signedDh
  | noPublic
  | negative
  | zeroDivision
  | struct (failure : Struct.Failure)
  | power (failure : Powers.Failure)
  | rsa (error : Rsa.Error)
  | aes (error : Aes.Error)
  deriving DecidableEq

def STEP_CLIENT_CERTREQ : Int := 1000
def STEP_CLIENT_CERT : Int := 1001

def BUCKET_NONE : Nat := 0
def BUCKET_CRYPTOMOD : Int := 3000
def BUCKET_MAIN : Int := 3001
def BUCKET_PUK : Int := 3004
def BUCKET_CIPHER : Int := 3005
def BUCKET_RTAG : Int := 3006
def BUCKET_SIGNED_RTAG : Int := 3007
def BUCKET_X509 : Int := 3022
def BUCKET_CIPHER_ALG : Int := 3025
def BUCKET_MD_ALG : Int := 3026

def SESSION_KEY_LEN : Nat := 16

def bytes (literal : String) : Bytes := Text.encodeUtf8 (str literal)

def NAME : Bytes := bytes "gsi" ++ [0]
def BPUB : Bytes := bytes "---BPUB---"
def EPUB : Bytes := bytes "---EPUB--"

structure Bucket where
  type : Int
  data : Bytes
  deriving DecidableEq

def Bucket.pack (bucket : Bucket) : Except Struct.Failure Bytes := do
  let type ← Struct.packWhole 4 false bucket.type
  let length ← Struct.packWhole 4 false bucket.data.length
  return type ++ length ++ bucket.data

def encodeBuckets : List Bucket → Except Struct.Failure Bytes
  | [] => .ok []
  | bucket :: rest => do
      let packed ← bucket.pack
      let others ← encodeBuckets rest
      return packed ++ others

def encodeMessage (step : Int) (buckets : List Bucket) : Except Struct.Failure Bytes := do
  let step ← Struct.packWhole 4 false step
  let packed ← encodeBuckets buckets
  let terminator ← Struct.packWhole 4 false BUCKET_NONE
  return NAME ++ step ++ packed ++ terminator

def word (data : Bytes) (pos : Nat) : Nat := decode ((data.drop pos).take 4)

def bucketsFrom (data : Bytes) (pos : Nat) : Except Error (List Bucket) :=
  if data.length < pos + 4 then .ok []
  else
    let kind := word data pos
    let start := pos + 4
    if kind = BUCKET_NONE then .ok []
    else if data.length < start + 4 then .error (.noLength kind)
    else
      let length := word data start
      let start := start + 4
      if data.length - start < length then .error (.pastEnd kind length (data.length - start))
      else
        match bucketsFrom data (start + length) with
        | .error error => .error error
        | .ok rest => .ok (⟨kind, (data.drop start).take length⟩ :: rest)
termination_by data.length - pos

def decodeMessage (data : Bytes) : Except Error (Int × List Bucket) :=
  match Search.find [0] data with
  | none => .error .noName
  | some end_ =>
      let pos := end_ + 1
      if data.length < pos + 4 then .error .noStep
      else do
        let buckets ← bucketsFrom data (pos + 4)
        return (word data pos, buckets)

/-- `find_bucket`: nothing where the message is not one. -/
def findBucket (data : Bytes) (kind : Int) : Option Bytes :=
  match decodeMessage data with
  | .error _ => none
  | .ok (_, buckets) => (buckets.find? (·.type = kind)).map Bucket.data

structure PeerPublic where
  paramsPem : Bytes
  p : Int
  g : Int
  public_ : Int
  deriving DecidableEq

def parseDhParameters (pem : Bytes) : Except Error (Int × Int) :=
  match (Pem.pemBlocks pem).filter fun block => Pem.endswith (str "PARAMETERS") block.1 with
  | [] => .error .noPem
  | (_, der) :: _ => do
      let (element, _) ← (Der.parse der 0).mapError .unreadable
      match ← element.children.mapError .unreadable with
      | prime :: base :: _ =>
          let p ← (Der.readInteger prime).mapError .unreadable
          let g ← (Der.readInteger base).mapError .unreadable
          return (p, g)
      | _ => .error .tooFew

def parsePeerBlob (blob : Bytes) : Except Error PeerPublic :=
  match Search.find BPUB blob with
  | none => .error .malformed
  | some start =>
      let front := start + BPUB.length
      match Search.findFrom EPUB blob front with
      | none => .error .malformed
      | some end_ =>
          if end_ ≤ front then .error .malformed
          else
            match Hex.int (Hex.strip ((blob.take end_).drop front)) with
            | none => .error .notHex
            | some public_ => do
                let (prime, generator) ← parseDhParameters (blob.take start)
                return ⟨blob.take start, prime, generator, public_⟩

/-- `n.to_bytes((n.bit_length() + 7) // 8, "big")`. -/
def minimalBytes (number : Int) : Except Error Bytes :=
  if number < 0 then .error .negative else .ok (Minimal.toBytes number.toNat)

def encodePublicBlob (paramsPem : Bytes) (public_ : Int) : Except Error Bytes := do
  let raw ← minimalBytes public_
  return paramsPem ++ BPUB ++ Hex.hexlified raw ++ bytes "---EPUB---"

def sessionKey (peer : PeerPublic) (private_ : Int) (length : Nat) : Except Error Bytes := do
  let secret ← (Powers.pow peer.public_ private_ peer.p).mapError .power
  let raw ← minimalBytes secret
  if raw.length < length then .error (.shortSecret raw.length length)
  else return raw.take length

def Word (value : Int) : Prop := 0 ≤ value ∧ value < 2 ^ 32

structure Bucket.Fits (bucket : Bucket) : Prop where
  type : Word bucket.type
  some_ : bucket.type ≠ 0
  length : bucket.data.length < 2 ^ 32

theorem pack_word {value : Int} (fits : Word value) :
    Struct.packWhole 4 false value = .ok (encode 4 value.toNat) := by
  have held : Struct.Fits 4 false value := fits
  have same : unsigned 4 value = value.toNat := by
    have span : (256 : Int) ^ 4 = 2 ^ 32 := by norm_num
    rw [unsigned, span, Int.emod_eq_of_lt fits.1 fits.2]
  rw [Struct.packWhole, if_pos held, same]

theorem decode_word {value : Int} (fits : Word value) :
    ((decode (encode 4 value.toNat) : Nat) : Int) = value := by
  obtain ⟨low, high⟩ := fits
  have small : value.toNat < 256 ^ 4 := by
    have bound : (256 : Nat) ^ 4 = 2 ^ 32 := by norm_num
    rw [bound]
    omega
  rw [decode_encode small]
  omega

def Bucket.bytes (bucket : Bucket) : Bytes :=
  encode 4 bucket.type.toNat ++ (encode 4 bucket.data.length ++ bucket.data)

theorem length_word {bucket : Bucket} (fits : bucket.Fits) : Word bucket.data.length :=
  ⟨Int.natCast_nonneg _, by exact_mod_cast fits.length⟩

theorem encode_buckets_ok {buckets : List Bucket} (fit : ∀ bucket ∈ buckets, bucket.Fits) :
    encodeBuckets buckets = .ok (buckets.flatMap Bucket.bytes) := by
  induction buckets with
  | nil => rfl
  | cons bucket rest induction =>
      obtain ⟨here, later⟩ := List.forall_mem_cons.mp fit
      rw [encodeBuckets, Bucket.pack, pack_word here.type, pack_word (length_word here),
        induction later]
      simp only [bind, Except.bind, pure, Except.pure, Int.toNat_natCast, List.append_assoc,
        List.flatMap_cons, Bucket.bytes]

theorem word_here {data rest front : Bytes} {pos : Nat} (long : front.length = 4)
    (parted : data.drop pos = front ++ rest) :
    word data pos = decode front ∧ data.drop (pos + 4) = rest ∧ ¬ data.length < pos + 4 := by
  have behind : data.drop (pos + 4) = (data.drop pos).drop 4 := List.drop_drop.symm
  have lengths := congrArg List.length parted
  rw [List.length_drop, List.length_append] at lengths
  refine ⟨?_, ?_, by omega⟩
  · rw [word, parted, List.take_left' long]
  · rw [behind, parted, List.drop_left' long]

theorem buckets_read {data tail : Bytes} {buckets : List Bucket} {pos : Nat}
    (fit : ∀ bucket ∈ buckets, bucket.Fits)
    (parted : data.drop pos = buckets.flatMap Bucket.bytes ++ (encode 4 BUCKET_NONE ++ tail)) :
    bucketsFrom data pos = .ok buckets := by
  induction buckets generalizing pos with
  | nil =>
      obtain ⟨zero, -, inside⟩ := word_here (encode_length 4 BUCKET_NONE) parted
      have none_ : word data pos = BUCKET_NONE := by
        rw [zero]
        decide
      rw [bucketsFrom, if_neg inside]
      dsimp only
      rw [if_pos none_]
  | cons bucket rest induction =>
      obtain ⟨here, later⟩ := List.forall_mem_cons.mp fit
      rw [List.flatMap_cons, Bucket.bytes, List.append_assoc, List.append_assoc,
        List.append_assoc] at parted
      obtain ⟨kind, behind, inside⟩ := word_here (encode_length 4 _) parted
      obtain ⟨length, content, within⟩ := word_here (encode_length 4 _) behind
      have known : ((word data pos : Nat) : Int) = bucket.type := by
        rw [kind, decode_word here.type]
      have size : word data (pos + 4) = bucket.data.length := by
        have cast := decode_word (length_word here)
        rw [Int.toNat_natCast] at cast
        rw [length]
        exact_mod_cast cast
      have some_ : word data pos ≠ BUCKET_NONE := by
        intro none_
        rw [none_] at known
        exact here.some_ known.symm
      have room : ¬ data.length - (pos + 4 + 4) < word data (pos + 4) := by
        have lengths := congrArg List.length content
        rw [List.length_drop, List.length_append] at lengths
        omega
      have next : data.drop (pos + 4 + 4 + word data (pos + 4)) =
          rest.flatMap Bucket.bytes ++ (encode 4 BUCKET_NONE ++ tail) := by
        have after : data.drop (pos + 4 + 4 + word data (pos + 4)) =
            (data.drop (pos + 4 + 4)).drop (word data (pos + 4)) := List.drop_drop.symm
        rw [after, content, size]
        exact List.drop_left
      have cut : (data.drop (pos + 4 + 4)).take (word data (pos + 4)) = bucket.data := by
        rw [content, size]
        exact List.take_left
      rw [bucketsFrom, if_neg inside]
      dsimp only
      rw [if_neg some_, if_neg within, if_neg room, induction later next, cut, known]

theorem name_found (rest : Bytes) : Search.find [0] (NAME ++ rest) = some 3 := by
  have bare : ∀ place < (bytes "gsi").length, ¬ [0] <+: (bytes "gsi" ++ ([0] ++ rest)).drop place := by
    intro place inside early
    have three : place = 0 ∨ place = 1 ∨ place = 2 := by
      change place < 3 at inside
      omega
    obtain ⟨more, parted⟩ := early
    rcases three with rfl | rfl | rfl <;> cases parted
  exact Search.find_behind bare (List.prefix_append _ _)

/-- What a message was made of is read back, and what stands behind its end is not. -/
theorem message_read {step : Int} {buckets : List Bucket} (word_ : Word step)
    (fit : ∀ bucket ∈ buckets, bucket.Fits) :
    ∃ message, encodeMessage step buckets = .ok message ∧
      ∀ tail, decodeMessage (message ++ tail) = .ok (step, buckets) := by
  have zero : Word (BUCKET_NONE : Int) := ⟨le_rfl, by decide⟩
  refine ⟨NAME ++ encode 4 step.toNat ++ buckets.flatMap Bucket.bytes ++ encode 4 BUCKET_NONE, ?_, ?_⟩
  · rw [encodeMessage, pack_word word_, encode_buckets_ok fit, pack_word zero]
    rfl
  · intro tail
    rw [List.append_assoc, List.append_assoc, List.append_assoc]
    generalize shape : NAME ++ (encode 4 step.toNat ++
      (buckets.flatMap Bucket.bytes ++ (encode 4 BUCKET_NONE ++ tail))) = data
    have found : Search.find [0] data = some 3 := shape ▸ name_found _
    have front : data.drop 4 = encode 4 step.toNat ++
        (buckets.flatMap Bucket.bytes ++ (encode 4 BUCKET_NONE ++ tail)) := shape ▸ rfl
    obtain ⟨known, behind, inside⟩ := word_here (encode_length 4 _) front
    rw [decodeMessage, found]
    dsimp only
    rw [if_neg inside, buckets_read fit behind, known]
    simp only [bind, Except.bind, pure, Except.pure, decode_word word_]

/-- Parameters that neither hold the mark of the public value nor end with as much of it
as the mark itself goes on from. -/
structure Unmarked (params : Bytes) : Prop where
  absent : ¬ BPUB <:+: params
  seven : ¬ bytes "---BPUB" <:+ params
  eight : ¬ bytes "---BPUB-" <:+ params
  nine : ¬ bytes "---BPUB--" <:+ params

theorem mark_found {params : Bytes} (unmarked : Unmarked params) (rest : Bytes) :
    Search.find BPUB (params ++ (BPUB ++ rest)) = some params.length := by
  refine Search.find_marked unmarked.absent fun count positive below again => ?_
  change count < 10 at below
  have ends : ∀ count < 10, 0 < count → BPUB.drop count <+: BPUB →
      count = 7 ∨ count = 8 ∨ count = 9 := by decide
  rcases ends count below positive again with rfl | rfl | rfl
  · exact unmarked.seven
  · exact unmarked.eight
  · exact unmarked.nine

theorem digits_end (data rest : Bytes) :
    Search.find EPUB (Hex.hexlified data ++ (EPUB ++ rest)) =
      some (Hex.hexlified data).length := by
  have plain : ∀ value < 16, Hex.digit value ≠ 0x2D := fun value small =>
    (Hex.digit_plain value small).2.2.1
  have dashless : (0x2D : UInt8) ∉ Hex.hexlified data := by
    intro member
    obtain ⟨value, small, dash⟩ := Hex.hexlified_digits data _ member
    exact plain value small dash.symm
  refine Search.find_marked ?_ ?_
  · rintro ⟨before, after, whole⟩
    apply dashless
    rw [← whole]
    exact List.mem_append_left _ (List.mem_append_right _ (by decide))
  · intro count positive below again ends
    apply dashless
    have dash : (0x2D : UInt8) ∈ EPUB.take count := by
      obtain ⟨more, rfl⟩ : ∃ more, count = more + 1 := ⟨count - 1, by omega⟩
      exact List.mem_cons_self
    exact ends.subset dash

theorem minimal_positive {number : Int} (positive : 0 < number) :
    minimalBytes number = .ok (Minimal.toBytes number.toNat) ∧
      Minimal.toBytes number.toNat ≠ [] := by
  refine ⟨if_neg (by omega), fun empty => ?_⟩
  have known := Minimal.decode_to_bytes number.toNat
  rw [empty] at known
  change 0 = number.toNat at known
  omega

theorem blob_read {params : Bytes} {public_ p g : Int} (unmarked : Unmarked params)
    (positive : 0 < public_) (group : parseDhParameters params = .ok (p, g)) :
    ∃ blob, encodePublicBlob params public_ = .ok blob ∧
      parsePeerBlob blob = .ok ⟨params, p, g, public_⟩ := by
  obtain ⟨written, some_⟩ := minimal_positive positive
  generalize raw_eq : Minimal.toBytes public_.toNat = raw at written some_
  have value : decode raw = public_.toNat := by
    rw [← raw_eq]
    exact Minimal.decode_to_bytes _
  refine ⟨params ++ BPUB ++ Hex.hexlified raw ++ bytes "---EPUB---", ?_, ?_⟩
  · rw [encodePublicBlob, written]
    rfl
  · have shape : params ++ BPUB ++ Hex.hexlified raw ++ bytes "---EPUB---" =
        params ++ (BPUB ++ (Hex.hexlified raw ++ (EPUB ++ bytes "-"))) := by
      simp only [List.append_assoc]
      rfl
    rw [shape]
    generalize tail_eq : Hex.hexlified raw ++ (EPUB ++ bytes "-") = tail
    have start := mark_found unmarked tail
    have behind : (params ++ (BPUB ++ tail)).drop (params.length + BPUB.length) = tail := by
      rw [← List.append_assoc]
      exact List.drop_left' List.length_append
    have end_ : Search.findFrom EPUB (params ++ (BPUB ++ tail)) (params.length + BPUB.length) =
        some ((Hex.hexlified raw).length + (params.length + BPUB.length)) := by
      rw [Search.findFrom, behind, ← tail_eq, digits_end]
      rfl
    have digits : ((params ++ (BPUB ++ tail)).take
        ((Hex.hexlified raw).length + (params.length + BPUB.length))).drop
          (params.length + BPUB.length) = Hex.hexlified raw := by
      rw [List.drop_take, behind, Nat.add_sub_cancel, ← tail_eq]
      exact List.take_left
    have more : ¬ (Hex.hexlified raw).length + (params.length + BPUB.length) ≤
        params.length + BPUB.length := by
      intro none_
      have empty : (Hex.hexlified raw).length = 0 := by omega
      cases raw with
      | nil => exact some_ rfl
      | cons byte rest => cases empty
    have front : (params ++ (BPUB ++ tail)).take params.length = params := List.take_left
    rw [parsePeerBlob, start]
    dsimp only
    rw [end_]
    dsimp only
    rw [if_neg more, digits, Hex.int_hexlified some_, front, group, value]
    simp only [bind, Except.bind, pure, Except.pure, Int.toNat_of_nonneg (le_of_lt positive)]

theorem keys_same {p g first second one other : Int} (here : Powers.pow g first p = .ok one)
    (there : Powers.pow g second p = .ok other) (params : Bytes) (length : Nat) :
    sessionKey ⟨params, p, g, other⟩ first length = sessionKey ⟨params, p, g, one⟩ second length := by
  rw [sessionKey, sessionKey]
  dsimp only
  rw [Powers.pow_exchanged here there]

/-- Messages and public values survive the wire, and both ends derive one key. -/
theorem gsi_survives :
    (∀ step buckets, Word step → (∀ bucket ∈ buckets, bucket.Fits) →
      ∃ message, encodeMessage step buckets = .ok message ∧
        decodeMessage message = .ok (step, buckets)) ∧
    ∀ params p g, Unmarked params → parseDhParameters params = .ok (p, g) →
      (∀ public_, 0 < public_ →
        ∃ blob, encodePublicBlob params public_ = .ok blob ∧
          parsePeerBlob blob = .ok ⟨params, p, g, public_⟩) ∧
      ∀ first second one other length, Powers.pow g first p = .ok one →
        Powers.pow g second p = .ok other →
        sessionKey ⟨params, p, g, other⟩ first length =
          sessionKey ⟨params, p, g, one⟩ second length := by
  refine ⟨?_, ?_⟩
  · intro step buckets word_ fit
    obtain ⟨message, written, read⟩ := message_read word_ fit
    refine ⟨message, written, ?_⟩
    have bare := read []
    rwa [List.append_nil] at bare
  · intro params p g unmarked group
    refine ⟨fun public_ positive => blob_read unmarked positive group, ?_⟩
    intro first second one other length here there
    exact keys_same here there params length

/-- Parameters of a small group, with something behind the block. -/
def smallParams (tail : String) : Bytes :=
  bytes ("-----BEGIN DH PARAMETERS-----\nMAYCARcCAQU=\n-----END DH PARAMETERS-----\n" ++ tail)

theorem small_group {pem : Bytes}
    (blocks : Pem.pemBlocks pem =
      [(str "DH PARAMETERS", [0x30, 0x06, 0x02, 0x01, 0x17, 0x02, 0x01, 0x05])]) :
    parseDhParameters pem = .ok (23, 5) := by
  have children : (⟨0x30, [0x02, 0x01, 0x17, 0x02, 0x01, 0x05]⟩ : Der.Element).children =
      .ok [⟨0x02, [0x17]⟩, ⟨0x02, [0x05]⟩] := by
    refine Der.parse_all_iff.mpr ⟨[⟨0x02, [0x01], [0x17]⟩, ⟨0x02, [0x01], [0x05]⟩], ?_, by decide, rfl⟩
    intro field member
    rcases List.mem_pair.mp member with rfl | rfl <;> exact ⟨by decide, by decide, by decide⟩
  have named : (Pem.pemBlocks pem).filter (fun block => Pem.endswith (str "PARAMETERS") block.1) =
      [(str "DH PARAMETERS", [0x30, 0x06, 0x02, 0x01, 0x17, 0x02, 0x01, 0x05])] := by
    rw [blocks]
    decide +kernel
  have outer : Der.parse [0x30, 0x06, 0x02, 0x01, 0x17, 0x02, 0x01, 0x05] 0 =
      .ok (⟨0x30, [0x02, 0x01, 0x17, 0x02, 0x01, 0x05]⟩, 8) := by decide +kernel
  rw [parseDhParameters, named]
  dsimp only
  rw [outer]
  simp only [Except.mapError, bind, Except.bind, children]
  rfl

theorem small_group_survives :
    (∃ message, encodeMessage 7 [⟨3001, [0x67, 0x73, 0x69, 0, 0, 0, 0, 0]⟩] = .ok message ∧
      decodeMessage message = .ok (7, [⟨3001, [0x67, 0x73, 0x69, 0, 0, 0, 0, 0]⟩])) ∧
      (∃ blob, encodePublicBlob (smallParams "") 8 = .ok blob ∧
        parsePeerBlob blob = .ok ⟨smallParams "", 23, 5, 8⟩) ∧
      sessionKey ⟨smallParams "", 23, 5, 10⟩ 6 1 = sessionKey ⟨smallParams "", 23, 5, 8⟩ 3 1 := by
  have unmarked : Unmarked (smallParams "") :=
    ⟨by decide +kernel, by decide +kernel, by decide +kernel, by decide +kernel⟩
  have group : parseDhParameters (smallParams "") = .ok (23, 5) := small_group (by decide +kernel)
  have both := gsi_survives.2 _ _ _ unmarked group
  refine ⟨gsi_survives.1 7 _ ⟨by decide, by decide⟩ ?_, both.1 8 (by decide), ?_⟩
  · intro bucket member
    rw [List.mem_singleton.mp member]
    exact ⟨⟨by decide, by decide⟩, by decide, by decide⟩
  · exact both.2 6 3 8 10 1 (by decide +kernel) (by decide +kernel)

/-- Parameters that end with the start of the mark, and a bucket of 2^32 bytes. -/
theorem marked_early :
    parseDhParameters (smallParams "---BPUB") = .ok (23, 5) ∧
      ¬ BPUB <:+: smallParams "---BPUB" ∧
      (∃ blob, encodePublicBlob (smallParams "---BPUB") 8 = .ok blob ∧
        parsePeerBlob blob = .error .notHex) ∧
      encodeMessage 7 [⟨3001, List.replicate (2 ^ 32) 0⟩] = .error .structError := by
  refine ⟨small_group (by decide +kernel), by decide +kernel, ?_, ?_⟩
  · exact ⟨smallParams "---BPUB" ++ BPUB ++ bytes "08" ++ bytes "---EPUB---", by decide +kernel,
      by decide +kernel⟩
  · have many : Struct.packWhole 4 false (2 ^ 32 : Nat) = .error .structError := by decide +kernel
    rw [encodeMessage, encodeBuckets, Bucket.pack, List.length_replicate, many]
    rfl

end XRootDClient.Auth.Gsi

import XRootDClient.Lib.BigEndian

/-!
SHA-256 and HMAC over byte lists, as the standards define them: 32-bit words,
a 64-word message schedule kept newest first, and the eight-word compression.
-/

set_option autoImplicit false

namespace XRootDClient.Lib.Sha256

open BigEndian

structure Digest where
  a : UInt32
  b : UInt32
  c : UInt32
  d : UInt32
  e : UInt32
  f : UInt32
  g : UInt32
  h : UInt32

def roundConstants : List UInt32 :=
  [0x428a2f98, 0x71374491, 0xb5c0fbcf, 0xe9b5dba5, 0x3956c25b, 0x59f111f1, 0x923f82a4,
   0xab1c5ed5, 0xd807aa98, 0x12835b01, 0x243185be, 0x550c7dc3, 0x72be5d74, 0x80deb1fe,
   0x9bdc06a7, 0xc19bf174, 0xe49b69c1, 0xefbe4786, 0x0fc19dc6, 0x240ca1cc, 0x2de92c6f,
   0x4a7484aa, 0x5cb0a9dc, 0x76f988da, 0x983e5152, 0xa831c66d, 0xb00327c8, 0xbf597fc7,
   0xc6e00bf3, 0xd5a79147, 0x06ca6351, 0x14292967, 0x27b70a85, 0x2e1b2138, 0x4d2c6dfc,
   0x53380d13, 0x650a7354, 0x766a0abb, 0x81c2c92e, 0x92722c85, 0xa2bfe8a1, 0xa81a664b,
   0xc24b8b70, 0xc76c51a3, 0xd192e819, 0xd6990624, 0xf40e3585, 0x106aa070, 0x19a4c116,
   0x1e376c08, 0x2748774c, 0x34b0bcb5, 0x391c0cb3, 0x4ed8aa4a, 0x5b9cca4f, 0x682e6ff3,
   0x748f82ee, 0x78a5636f, 0x84c87814, 0x8cc70208, 0x90befffa, 0xa4506ceb, 0xbef9a3f7,
   0xc67178f2]

def start : Digest where
  a := 0x6a09e667
  b := 0xbb67ae85
  c := 0x3c6ef372
  d := 0xa54ff53a
  e := 0x510e527f
  f := 0x9b05688c
  g := 0x1f83d9ab
  h := 0x5be0cd19

def rotateRight (word : UInt32) (count : UInt32) : UInt32 :=
  (word >>> count) ||| (word <<< (32 - count))

def round (digest : Digest) (constant word : UInt32) : Digest :=
  let mix := rotateRight digest.e 6 ^^^ rotateRight digest.e 11 ^^^ rotateRight digest.e 25
  let choose := (digest.e &&& digest.f) ^^^ (~~~digest.e &&& digest.g)
  let first := digest.h + mix + choose + constant + word
  let spread := rotateRight digest.a 2 ^^^ rotateRight digest.a 13 ^^^ rotateRight digest.a 22
  let majority := (digest.a &&& digest.b) ^^^ (digest.a &&& digest.c) ^^^ (digest.b &&& digest.c)
  { a := first + (spread + majority)
    b := digest.a
    c := digest.b
    d := digest.c
    e := digest.d + first
    f := digest.e
    g := digest.f
    h := digest.g }

/-- One more word of the message schedule, in front of the words so far. -/
def extend (words : List UInt32) : List UInt32 :=
  let old := words.getD 14 0
  let recent := words.getD 1 0
  let low := rotateRight old 7 ^^^ rotateRight old 18 ^^^ (old >>> 3)
  let high := rotateRight recent 17 ^^^ rotateRight recent 19 ^^^ (recent >>> 10)
  (words.getD 15 0 + low + words.getD 6 0 + high) :: words

/-- Cuts a list into pieces of `size`, the last one possibly shorter. -/
def pieces {Item : Type} (size : Nat) : Nat → List Item → List (List Item)
  | 0, _ => []
  | _, [] => []
  | count + 1, items => items.take size :: pieces size count (items.drop size)

def schedule (block : Bytes) : List UInt32 :=
  let words := (pieces 4 16 block).map fun piece => UInt32.ofNat (decode piece)
  ((List.range 48).foldl (fun words _ => extend words) words.reverse).reverse

def compress (digest : Digest) (block : Bytes) : Digest :=
  let mixed := (roundConstants.zip (schedule block)).foldl
    (fun digest pair => round digest pair.1 pair.2) digest
  { a := digest.a + mixed.a
    b := digest.b + mixed.b
    c := digest.c + mixed.c
    d := digest.d + mixed.d
    e := digest.e + mixed.e
    f := digest.f + mixed.f
    g := digest.g + mixed.g
    h := digest.h + mixed.h }

def pad (message : Bytes) : Bytes :=
  message ++ 0x80 :: List.replicate ((119 - message.length % 64) % 64) 0 ++
    encode 8 (8 * message.length)

def word (value : UInt32) : Bytes := encode 4 value.toNat

def Digest.bytes (digest : Digest) : Bytes :=
  word digest.a ++ word digest.b ++ word digest.c ++ word digest.d ++
    word digest.e ++ word digest.f ++ word digest.g ++ word digest.h

def sha256 (message : Bytes) : Bytes :=
  let padded := pad message
  ((pieces 64 padded.length padded).foldl compress start).bytes

def hmac (key message : Bytes) : Bytes :=
  let short := if key.length > 64 then sha256 key else key
  let block := short ++ List.replicate (64 - short.length) 0
  sha256 (block.map (· ^^^ 0x5c) ++ sha256 (block.map (· ^^^ 0x36) ++ message))

theorem digest_length (digest : Digest) : digest.bytes.length = 32 := by
  simp [Digest.bytes, word]

@[simp] theorem hmac_length (key message : Bytes) : (hmac key message).length = 32 :=
  digest_length _

end XRootDClient.Lib.Sha256

import XRootDClient.Lib.BigEndian

/-!
XXH64 over words of 64 bits: four accumulators over stripes of 32 bytes, their
convergence, the rest of the input in lanes of eight, four and one bytes, and the
final avalanche. Every operation is one of words, so that nothing is ever masked.
-/

set_option autoImplicit false

namespace XRootDClient.Lib.XxHash

open BigEndian

abbrev Word := BitVec 64

def prime1 : Word := 0x9E3779B185EBCA87
def prime2 : Word := 0xC2B2AE3D27D4EB4F
def prime3 : Word := 0x165667B19E3779F9
def prime4 : Word := 0x85EBCA77C2B2AE63
def prime5 : Word := 0x27D4EB2F165667C5

def lane (bytes : Bytes) : Word := BitVec.ofNat 64 (decode bytes.reverse)

structure Accumulators where
  acc1 : Word
  acc2 : Word
  acc3 : Word
  acc4 : Word

def start (seed : Word) : Accumulators :=
  ⟨seed + prime1 + prime2, seed + prime2, seed, seed - prime1⟩

def round (acc lane : Word) : Word := (acc + lane * prime2).rotateLeft 31 * prime1

def stripe (accs : Accumulators) (bytes : Bytes) : Accumulators where
  acc1 := round accs.acc1 (lane (bytes.take 8))
  acc2 := round accs.acc2 (lane ((bytes.drop 8).take 8))
  acc3 := round accs.acc3 (lane ((bytes.drop 16).take 8))
  acc4 := round accs.acc4 (lane ((bytes.drop 24).take 8))

def stripes (accs : Accumulators) (data : Bytes) : Accumulators × Bytes :=
  if 32 ≤ data.length then stripes (stripe accs (data.take 32)) (data.drop 32)
  else (accs, data)
termination_by data.length

def merge (acc word : Word) : Word := (acc ^^^ round 0 word) * prime1 + prime4

def converge (accs : Accumulators) : Word :=
  let acc := accs.acc1.rotateLeft 1 + accs.acc2.rotateLeft 7 + accs.acc3.rotateLeft 12 +
    accs.acc4.rotateLeft 18
  merge (merge (merge (merge acc accs.acc1) accs.acc2) accs.acc3) accs.acc4

def tail8 (acc : Word) (data : Bytes) : Word × Bytes :=
  if 8 ≤ data.length then
    tail8 ((acc ^^^ round 0 (lane (data.take 8))).rotateLeft 27 * prime1 + prime4) (data.drop 8)
  else (acc, data)
termination_by data.length

def tail4 (acc : Word) (data : Bytes) : Word × Bytes :=
  if 4 ≤ data.length then
    ((acc ^^^ lane (data.take 4) * prime1).rotateLeft 23 * prime2 + prime3, data.drop 4)
  else (acc, data)

def tail1 (acc : Word) (byte : UInt8) : Word :=
  (acc ^^^ lane [byte] * prime5).rotateLeft 11 * prime1

def avalanche (acc : Word) : Word :=
  let acc := (acc ^^^ (acc >>> 33)) * prime2
  let acc := (acc ^^^ (acc >>> 29)) * prime3
  acc ^^^ (acc >>> 32)

def hash (seed : Word) (data : Bytes) : Word :=
  let (acc, rest) :=
    if 32 ≤ data.length then
      let (accs, rest) := stripes (start seed) data
      (converge accs, rest)
    else (seed + prime5, data)
  let (acc, rest) := tail8 (acc + BitVec.ofNat 64 data.length) rest
  let (acc, rest) := tail4 acc rest
  avalanche (rest.foldl tail1 acc)

end XRootDClient.Lib.XxHash

import XRootDClient.Config
import XRootDClient.Lib.BigEndian
import XRootDClient.Lib.Extent

/-!
# An open remote file

A handle that is open keeps two copies of the file's length, the stat of the open
and a hint that writes raise and a truncation sets; either is asked only while the
stat is there, and every write drops it. Reads and writes are split into requests
of `chunk_size` bytes. The server answers a read with what it has at the offset,
and stores what it is given where it is told to.
-/

set_option autoImplicit false

namespace XRootDClient.Client

open Lib Lib.BigEndian Lib.Extent

structure File where
  server : Bytes
  stat : Option Nat := none
  sizeHint : Nat := 0

namespace File

def refresh (file : File) : Nat × File :=
  (file.server.length,
    { file with stat := some file.server.length, sizeHint := file.server.length })

def size (file : File) : Nat × File :=
  match file.stat with
  | some _ => (file.sizeHint, file)
  | none => file.refresh

def readOne (offset length : Nat) (file : File) : Bytes := fetch file.server offset length

def readLoop (limit : Nat) (file : File) : Nat → Nat → Nat → Option Bytes
  | _, _, 0 => some []
  | 0, _, _ + 1 => none
  | fuel + 1, at_, remaining + 1 =>
      let wanted := min (remaining + 1) limit
      let chunk := file.readOne at_ wanted
      if chunk.length < wanted then some chunk
      else (readLoop limit file fuel (at_ + wanted) (remaining + 1 - wanted)).map (chunk ++ ·)

def read (config : Config) (size offset : Nat) (file : File) : Option Bytes :=
  if size = 0 then some []
  else if size ≤ config.chunkSize then some (file.readOne offset size)
  else readLoop config.chunkSize file size offset size

/-- `config.check_whole_read`. -/
def tooLarge (config : Config) (size : Nat) : Bool :=
  config.maxReadSize ≠ 0 && size > config.maxReadSize

def writeLoop (limit : Nat) : Nat → Nat → Bytes → Bytes → Option Bytes
  | _, _, [], server => some server
  | 0, _, _ :: _, _ => none
  | fuel + 1, at_, byte :: rest, server =>
      let piece := (byte :: rest).take limit
      writeLoop limit fuel (at_ + piece.length) ((byte :: rest).drop limit)
        (patch 0 server at_ piece)

def invalidate (highWater : Nat) (exact : Bool) (file : File) : File :=
  { file with
    sizeHint := if exact then highWater else max file.sizeHint highWater
    stat := none }

def write (config : Config) (data : Bytes) (offset : Nat) (file : File) : Option (Nat × File) :=
  (writeLoop config.chunkSize data.length offset data file.server).map fun server =>
    (data.length, invalidate (offset + data.length) false { file with server := server })

def truncate (size : Nat) (file : File) : Nat × File :=
  (size, invalidate size true { file with server := resize 0 file.server size })

/-- The cached length, where there is one, is the length. -/
def Coherent (file : File) : Prop := file.stat ≠ none → file.sizeHint = file.server.length

variable {file : File}

theorem size_coherent (coherent : file.Coherent) :
    file.size.1 = file.server.length ∧ file.size.2.server = file.server ∧
      file.size.2.Coherent := by
  unfold size
  cases known : file.stat with
  | none => exact ⟨rfl, rfl, fun _ => rfl⟩
  | some length =>
      refine ⟨coherent (by rw [known]; exact Option.some_ne_none _), rfl, coherent⟩

theorem read_loop_fetch {limit : Nat} (positive : 0 < limit) (fuel offset remaining : Nat)
    (enough : remaining ≤ fuel) :
    readLoop limit file fuel offset remaining = some (fetch file.server offset remaining) := by
  induction fuel generalizing offset remaining with
  | zero =>
      obtain rfl : remaining = 0 := by omega
      rw [readLoop, fetch, List.take_zero]
  | succ fuel induction =>
      cases remaining with
      | zero => rw [readLoop, fetch, List.take_zero]
      | succ remaining =>
          rw [readLoop]
          generalize wanted : min (remaining + 1) limit = count
          have split : remaining + 1 = count + (remaining + 1 - count) := by omega
          by_cases short : (file.readOne offset count).length < count
          · rw [if_pos short, split, fetch_short file.server short]
            rfl
          · rw [if_neg short, induction _ _ (by omega), Option.map_some, readOne, fetch_append,
              ← split]

theorem read_fetch {config : Config} (positive : 0 < config.chunkSize) (size offset : Nat) :
    file.read config size offset = some (fetch file.server offset size) := by
  unfold read
  split_ifs with none
  · rw [none, fetch, List.take_zero]
  · rfl
  · exact read_loop_fetch positive size offset size (le_refl _)

theorem write_loop_patch {limit : Nat} (positive : 0 < limit) (fuel offset : Nat)
    (data server : Bytes) (enough : data.length ≤ fuel) :
    writeLoop limit fuel offset data server = some (patch 0 server offset data) := by
  induction fuel generalizing offset data server with
  | zero =>
      rw [List.length_eq_zero_iff.mp (Nat.le_zero.mp enough)]
      rfl
  | succ fuel induction =>
      cases data with
      | nil => rfl
      | cons byte rest =>
          rw [writeLoop, induction _ _ _ (by
            rw [List.length_drop]
            rw [List.length_cons] at enough ⊢
            omega), patch_append, List.take_append_drop]

theorem write_patch {config : Config} (positive : 0 < config.chunkSize) (data : Bytes)
    (offset : Nat) : file.write config data offset = some (data.length,
      invalidate (offset + data.length) false
        { file with server := patch 0 file.server offset data }) := by
  rw [write, write_loop_patch positive _ _ _ _ (le_refl _), Option.map_some]

theorem invalidate_coherent (highWater : Nat) (exact : Bool) :
    (invalidate highWater exact file).Coherent :=
  fun known => absurd rfl known

end File

end XRootDClient.Client

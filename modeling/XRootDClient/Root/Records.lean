import XRootDClient.Lib.Struct
import XRootDClient.Lib.Text
import XRootDClient.Root.Compression

/-!
# Records of a file being written

A record is a key and what it is the key of, compressed where that is smaller. The
key says how long both are and where the record stands; its fields have fixed widths,
so a number that does not fit one is refused before anything is kept.
-/

set_option autoImplicit false

namespace XRootDClient.Root

open Lib Lib.BigEndian Compression

inductive WriteError
  | packing (raised : PackError)
  | structError
  | unsupportedFeatureError (message : String)
  deriving DecidableEq

def big : Nat := 2_000_000_000

def begin_ : Nat := 100

def keyVersion : Nat := 4

def WBuffer.number (size : Nat) (signed : Bool) (value : Int) : Except WriteError Bytes :=
  match Struct.packWhole size signed value with
  | .ok field => .ok field
  | .error _ => .error .structError

def WBuffer.u8 (value : Int) : Except WriteError Bytes := WBuffer.number 1 false value
def WBuffer.u16 (value : Int) : Except WriteError Bytes := WBuffer.number 2 false value
def WBuffer.i16 (value : Int) : Except WriteError Bytes := WBuffer.number 2 true value
def WBuffer.u32 (value : Int) : Except WriteError Bytes := WBuffer.number 4 false value
def WBuffer.i32 (value : Int) : Except WriteError Bytes := WBuffer.number 4 true value

def WBuffer.string (text : Text) : Except WriteError Bytes :=
  let raw := text.encodeUtf8
  if 255 ≤ raw.length then do
    let mark ← WBuffer.u8 255
    let length ← WBuffer.i32 raw.length
    return mark ++ length ++ raw
  else do
    let length ← WBuffer.u8 raw.length
    return length ++ raw

def keylen (classname name title : Text) (extra : Nat) : Nat :=
  26 + extra + (1 + classname.encodeUtf8.length) + (1 + name.encodeUtf8.length) +
    (1 + title.encodeUtf8.length)

structure Records where
  algorithm : Option Algorithm
  level : Option Int
  datime : Nat
  data : Bytes
  keys : List Bytes
  deriving DecidableEq

structure Record where
  classname : Text
  name : Text
  title : Text
  payload : Bytes
  cycle : Int
  listed : Bool
  packed : Bool := true
  extra : Bytes := []

def Record.keylen (record : Record) : Nat :=
  Root.keylen record.classname record.name record.title record.extra.length

def Records.stored (codecs : Codecs) (records : Records) (record : Record) :
    Except WriteError Bytes :=
  if record.packed then
    match body codecs (records.algorithm.map Algorithm.name) records.level record.payload with
    | .ok stored => .ok stored
    | .error raised => .error (.packing raised)
  else .ok record.payload

def Records.key (records : Records) (record : Record) (stored : Bytes) : Except WriteError Bytes := do
  let nbytes ← WBuffer.i32 (record.keylen + stored.length : Nat)
  let version ← WBuffer.u16 keyVersion
  let length ← WBuffer.i32 record.payload.length
  let datime ← WBuffer.u32 records.datime
  let keylen ← WBuffer.i16 record.keylen
  let cycle ← WBuffer.i16 record.cycle
  let seek ← WBuffer.i32 records.data.length
  let directory ← WBuffer.i32 begin_
  let classname ← WBuffer.string record.classname
  let name ← WBuffer.string record.name
  let title ← WBuffer.string record.title
  return nbytes ++ version ++ length ++ datime ++ keylen ++ cycle ++ seek ++ directory ++ classname ++
    name ++ title

/-- `WritableFile._put`: the records behind it, where the record went and how long it is. -/
def Records.put (codecs : Codecs) (records : Records) (record : Record) :
    Except WriteError (Records × Nat × Nat) := do
  let seek := records.data.length
  if seek > big then
    throw (.unsupportedFeatureError ("this file has grown past 2 GB, which needs the wide layout " ++
      "this writer does not produce; split the output across files"))
  let stored ← records.stored codecs record
  let key ← records.key record stored
  let header := key ++ record.extra
  return ({ records with
      keys := if record.listed then records.keys ++ [header] else records.keys
      data := records.data ++ (header ++ stored) },
    seek, record.keylen + stored.length)

end XRootDClient.Root

import XRootDClient.Lib.BigEndian
import XRootDClient.Lib.Text

/-!
# PEM

The labelled blocks of a text and what is in them: lines as `str.splitlines` cuts them,
and base 64 as `base64.b64decode` takes it, which skips what is no digit and stops at a
padding that completes a group.
-/

set_option autoImplicit false

namespace XRootDClient.Crypto.Pem

open Lib Lib.BigEndian

/-- `data.decode("ascii", "replace")`. -/
def decodeAscii (data : Bytes) : Text :=
  data.map fun byte => if byte.toNat < 128 then Char.ofNat byte.toNat else Text.replacement

/-- What ends a line, other than the two characters that do it together. -/
def isBreak (char : Char) : Bool :=
  let code := char.toNat
  (0x0A ≤ code && code ≤ 0x0D) || (0x1C ≤ code && code ≤ 0x1E) || code == 0x85 || code == 0x2028 ||
    code == 0x2029

def linesFrom (line : Text) : Text → List Text
  | [] => if line = [] then [] else [line]
  | char :: rest =>
      if isBreak char then
        match char, rest with
        | '\r', '\n' :: rest => line :: linesFrom [] rest
        | _, rest => line :: linesFrom [] rest
      else linesFrom (line ++ [char]) rest

def splitlines (text : Text) : List Text := linesFrom [] text

def base64Value (char : Char) : Option Nat :=
  let code := char.toNat
  if 0x41 ≤ code ∧ code ≤ 0x5A then some (code - 0x41)
  else if 0x61 ≤ code ∧ code ≤ 0x7A then some (code - 0x61 + 26)
  else if 0x30 ≤ code ∧ code ≤ 0x39 then some (code - 0x30 + 52)
  else if code = 0x2B then some 62
  else if code = 0x2F then some 63
  else none

/-- The loop of `binascii.a2b_base64`: the place in a group of four, the bits left over
and the padding seen. A group left open is an error. -/
def a2bBase64 (quad left pads : Nat) : Text → Option Bytes
  | [] => if quad = 0 then some [] else none
  | char :: rest =>
      if char = '=' then
        if 2 ≤ quad then
          if 4 ≤ quad + (pads + 1) then some [] else a2bBase64 quad left (pads + 1) rest
        else a2bBase64 quad left pads rest
      else
        match base64Value char with
        | none => a2bBase64 quad left pads rest
        | some value =>
            match quad with
            | 0 => a2bBase64 1 value 0 rest
            | 1 => (a2bBase64 2 (value % 16) 0 rest).map (UInt8.ofNat (left * 4 + value / 16) :: ·)
            | 2 => (a2bBase64 3 (value % 4) 0 rest).map (UInt8.ofNat (left * 16 + value / 4) :: ·)
            | _ => (a2bBase64 0 0 0 rest).map (UInt8.ofNat (left * 64 + value) :: ·)

/-- `base64.b64decode`, or nothing where it raises `ValueError`: a text that is not ASCII
or an open group. -/
def b64decode (text : Text) : Option Bytes :=
  if text.all (·.toNat < 128) then a2bBase64 0 0 0 text else none

def startswith (front line : Text) : Bool := front.isPrefixOf line

def endswith (back line : Text) : Bool := back.isSuffixOf line

/-- One line of the text, with the label and body begun and the blocks so far. -/
def takeLine (state : Option Text × List Text × List (Text × Bytes)) (line : Text) :
    Option Text × List Text × List (Text × Bytes) :=
  let (label, body, out) := state
  let line := Text.strip line
  let dashes := str "-----"
  if startswith (str "-----BEGIN ") line && endswith dashes line then
    (some (Text.strip ((line.take (line.length - 5)).drop 11)), [], out)
  else if startswith (str "-----END ") line && endswith dashes line then
    let closes := label = some (Text.strip ((line.take (line.length - 5)).drop 9))
    let found :=
      match label, b64decode body.flatten with
      | some label, some data => if closes then [(label, data)] else []
      | _, _ => []
    (none, [], out ++ found)
  else if label.isSome then (label, body ++ [line], out)
  else (label, body, out)

def pemBlocks (data : Bytes) : List (Text × Bytes) :=
  ((splitlines (decodeAscii data)).foldl takeLine (none, [], [])).2.2

end XRootDClient.Crypto.Pem

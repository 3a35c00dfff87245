import Ace3.EmailArchive.LocalArchive

/-!
# Decoders of File Contents

The decoders that a mapping of files may name: base64, for which missing padding is added, and
hexadecimal digits, of which an odd last one is dropped. Both raise on text they cannot decode.
-/

namespace Ace3.Query

open EmailArchive (strip)

inductive DecoderType where
  | base64
  | asciiHex
  deriving DecidableEq

/-- The `ValueError` of a decoder. -/
inductive DecodeError where
  | notAscii
  | dataCharacters
  | incorrectPadding
  | notHex
  deriving DecidableEq

/-! ## §1 Base64 -/

/-- The value of a character in the standard alphabet. -/
def base64Value (c : Char) : Option ℕ :=
  if 'A' ≤ c ∧ c ≤ 'Z' then some (c.toNat - 'A'.toNat)
  else if 'a' ≤ c ∧ c ≤ 'z' then some (c.toNat - 'a'.toNat + 26)
  else if '0' ≤ c ∧ c ≤ '9' then some (c.toNat - '0'.toNat + 52)
  else if c = '+' then some 62
  else if c = '/' then some 63
  else none

/-- The character of the standard alphabet for one of the alphabet for URLs. -/
def fromUrlsafe (c : Char) : Char := if c = '-' then '+' else if c = '_' then '/' else c

/-- `binascii.a2b_base64`: the position within a group of four characters, the bits left of the last
one, the padding since then, and the bytes so far, the last first. Other characters are skipped. -/
def a2bBase64 : List Char → ℕ → ℕ → ℕ → List UInt8 → Except DecodeError (List UInt8)
  | [], quadPos, _, _, out =>
    if quadPos = 0 then .ok out.reverse
    else if quadPos = 1 then .error .dataCharacters
    else .error .incorrectPadding
  | c :: cs, quadPos, left, pads, out =>
    if c = '=' then
      if 2 ≤ quadPos then
        -- a full padding ends the data, whatever follows
        if 4 ≤ quadPos + (pads + 1) then .ok out.reverse
        else a2bBase64 cs quadPos left (pads + 1) out
      else a2bBase64 cs quadPos left pads out
    else
      match base64Value c with
      | none => a2bBase64 cs quadPos left pads out
      | some value =>
        if quadPos = 0 then a2bBase64 cs 1 value 0 out
        else if quadPos = 1 then
          a2bBase64 cs 2 (value % 16) 0 (UInt8.ofNat (left * 4 + value / 16) :: out)
        else if quadPos = 2 then
          a2bBase64 cs 3 (value % 4) 0 (UInt8.ofNat (left * 16 + value / 4) :: out)
        else a2bBase64 cs 0 0 0 (UInt8.ofNat (left * 64 + value) :: out)

def urlsafeB64decode (text : List Char) : Except DecodeError (List UInt8) :=
  if text.all fun c => c.toNat < 128 then a2bBase64 (text.map fromUrlsafe) 0 0 0 []
  else .error .notAscii

def decodeBase64 (value : String) : Except DecodeError (List UInt8) :=
  let trimmed := (strip value).toList
  let missingPadding := trimmed.length % 4
  urlsafeB64decode
    (if missingPadding = 0 then trimmed
     else trimmed ++ List.replicate (4 - missingPadding) '=')

/-! ## §2 Hexadecimal digits -/

def hexDigit (c : Char) : Option ℕ :=
  if '0' ≤ c ∧ c ≤ '9' then some (c.toNat - '0'.toNat)
  else if 'a' ≤ c ∧ c ≤ 'f' then some (c.toNat - 'a'.toNat + 10)
  else if 'A' ≤ c ∧ c ≤ 'F' then some (c.toNat - 'A'.toNat + 10)
  else none

/-- The white space that `bytes.fromhex` skips between bytes. -/
def isHexSpace (c : Char) : Bool := c = ' ' || 9 ≤ c.toNat && c.toNat ≤ 13

/-- `bytes.fromhex`. -/
def fromHex : List Char → Except DecodeError (List UInt8)
  | [] => .ok []
  | [c] => if isHexSpace c then .ok [] else .error .notHex
  | c :: d :: cs =>
    if isHexSpace c then fromHex (d :: cs)
    else
      match hexDigit c, hexDigit d with
      | some high, some low => (fromHex cs).map (UInt8.ofNat (high * 16 + low) :: ·)
      | _, _ => .error .notHex

def decodeAsciiHex (value : String) : Except DecodeError (List UInt8) :=
  let trimmed := (strip value).toList
  fromHex (if trimmed.length % 2 = 0 then trimmed else trimmed.dropLast)

/-! ## §3 Decoders -/

def decodeValue (value : String) : DecoderType → Except DecodeError (List UInt8)
  | .base64 => decodeBase64 value
  | .asciiHex => decodeAsciiHex value

example : decodeValue " aGk" .base64 = .ok [104, 105] := by decide

example : decodeValue "6869f" .asciiHex = .ok [104, 105] := by decide

end Ace3.Query

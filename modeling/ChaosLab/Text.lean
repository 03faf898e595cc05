import ChaosLab.Bytes

/-! The text helpers of `text.cpp`: hexadecimal digits, splitting and joining,
trimming and lower case. -/

set_option autoImplicit false

namespace ChaosLab

def hexDigits : Bytes := ascii "0123456789abcdef"

def toHexFrom : Nat → UInt64 → Bytes → Bytes
  | 0, _, written => written
  | positions + 1, value, written =>
      toHexFrom positions (value >>> 4) (hexDigits.getD (value &&& 0x0f).toNat 0 :: written)

/-- `to_hex`: sixteen lowercase digits, zero-padded. -/
def toHex (value : UInt64) : Bytes := toHexFrom 16 value []

def nibble (byte : UInt8) : Option Nat :=
  if 0x30 ≤ byte ∧ byte ≤ 0x39 then some (byte.toNat - 0x30)
  else if 0x61 ≤ byte ∧ byte ≤ 0x66 then some (byte.toNat - 0x61 + 10)
  else if 0x41 ≤ byte ∧ byte ≤ 0x46 then some (byte.toNat - 0x41 + 10)
  else none

/-- The loop of `from_hex`. Bits shifted out at the top are lost. -/
def fromHexFrom : UInt64 → Bytes → Option UInt64
  | value, [] => some value
  | value, byte :: rest =>
      match nibble byte with
      | none => none
      | some digit => fromHexFrom (value <<< 4 ||| UInt64.ofNat digit) rest

/-- `from_hex`: rejects the empty string and every non-hexadecimal digit. -/
def fromHex (text : Bytes) : Option UInt64 :=
  if text = [] then none else fromHexFrom 0 text

def splitFrom (delim : UInt8) (segment : Bytes) : Bytes → List Bytes
  | [] => [segment]
  | byte :: rest =>
      if byte = delim then segment :: splitFrom delim [] rest
      else splitFrom delim (segment ++ [byte]) rest

def split (text : Bytes) (delim : UInt8) : List Bytes := splitFrom delim [] text

/-- The loop of `split` over positions: the current part begins at `start`, and
`out` holds the parts before it. -/
def splitLoop (text : Bytes) (delim : UInt8) (start i : Nat) (out : List Bytes) :
    Except StdException (List Bytes) :=
  if inside : i < text.length then
    if text[i] = delim then
      match substr text start (some (i - start)) with
      | .error thrown => .error thrown
      | .ok part => splitLoop text delim (i + 1) (i + 1) (out ++ [part])
    else
      splitLoop text delim start (i + 1) out
  else
    match substr text start none with
    | .error thrown => .error thrown
    | .ok part => .ok (out ++ [part])
termination_by text.length - i

def joinFrom (delim : Bytes) (out : Bytes) : Nat → List Bytes → Bytes
  | _, [] => out
  | i, part :: parts =>
      let separated := if i ≠ 0 then out ++ delim else out
      joinFrom delim (separated ++ part) (i + 1) parts

def join (parts : List Bytes) (delim : Bytes) : Bytes := joinFrom delim [] 0 parts

def startsWith (text start : Bytes) : Bool :=
  start.length ≤ text.length ∧ text.take start.length = start

def trim (text : Bytes) : Bytes := (text.dropWhile isspace).rdropWhile isspace

/-- `std::tolower` in the "C" locale. -/
def tolower (byte : UInt8) : UInt8 :=
  if 0x41 ≤ byte ∧ byte ≤ 0x5a then byte + 0x20 else byte

def toLower (text : Bytes) : Bytes := text.map tolower

end ChaosLab

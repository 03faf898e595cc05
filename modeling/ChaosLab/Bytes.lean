import Mathlib
import ChaosLab.Foundation.Radix

/-! Byte strings and the pieces of the C++ standard library the sources call on
them. A `std::string` is a list of bytes; nothing is assumed about its encoding. -/

set_option autoImplicit false

namespace ChaosLab

open Foundation

abbrev Bytes := List UInt8

instance : DecidableEq (Std.ExtTreeMap Bytes Bytes) := inferInstance

/-- The bytes of an ASCII literal of the source. -/
def ascii (text : String) : Bytes := text.toList.map Char.toUInt8

namespace Byte

def newline : UInt8 := 0x0a
def carriageReturn : UInt8 := 0x0d
def comma : UInt8 := 0x2c
def colon : UInt8 := 0x3a
def equals : UInt8 := 0x3d
def backslash : UInt8 := 0x5c
def letterN : UInt8 := 0x6e
def letterR : UInt8 := 0x72
def pipe : UInt8 := 0x7c
def semicolon : UInt8 := 0x3b
def slash : UInt8 := 0x2f
def dot : UInt8 := 0x2e

end Byte

/-- `std::isspace` in the "C" locale: space, tab, newline, vertical tab, form
feed, carriage return. -/
def isspace (byte : UInt8) : Bool :=
  byte == 0x20 || (0x09 ≤ byte && byte ≤ 0x0d)

def isdigit (byte : UInt8) : Bool :=
  0x30 ≤ byte && byte ≤ 0x39

def digitValue (byte : UInt8) : Nat := byte.toNat - 0x30

def decimalValue (digits : Bytes) : Nat := ofDigitsBE 10 (digits.map digitValue)

def decimal (number : Nat) : Bytes :=
  if number = 0 then [0x30]
  else (Nat.digits 10 number).reverse.map fun digit => UInt8.ofNat (0x30 + digit)

/-- `std::to_string` of an unsigned 64-bit number. -/
def toString (value : UInt64) : Bytes := decimal value.toNat

/-- `std::to_string` of an `int`. -/
def toStringInt (value : Int32) : Bytes :=
  if value < 0 then 0x2d :: decimal value.toInt.natAbs else decimal value.toInt.toNat

/-- The exceptions `std::stoull` and `substr` throw. -/
inductive StdException where
  | invalidArgument
  | outOfRange
deriving DecidableEq, Repr

/-- `std::string_view::substr`, to the end of the text if no count is given. -/
def substr (text : Bytes) (pos : Nat) (count : Option Nat) : Except StdException Bytes :=
  if text.length < pos then
    .error .outOfRange
  else
    match count with
    | none => .ok (text.drop pos)
    | some count => .ok ((text.drop pos).take count)

/-- The optional sign of `strtoull`, and what follows it. -/
def takeSign : Bytes → Bool × Bytes
  | [] => (false, [])
  | byte :: rest =>
      if byte = 0x2d then (true, rest)
      else if byte = 0x2b then (false, rest)
      else (false, byte :: rest)

/-- `std::stoull` in base ten. Leading white space and a sign are skipped,
trailing text is ignored, and a minus sign negates modulo `2 ^ 64`. -/
def stoull (text : Bytes) : Except StdException UInt64 :=
  let (negative, unsigned) := takeSign (text.dropWhile isspace)
  let digits := unsigned.takeWhile isdigit
  if digits = [] then
    .error .invalidArgument
  else if 2 ^ 64 ≤ decimalValue digits then
    .error .outOfRange
  else
    .ok (if negative then -UInt64.ofNat (decimalValue digits)
      else UInt64.ofNat (decimalValue digits))

end ChaosLab

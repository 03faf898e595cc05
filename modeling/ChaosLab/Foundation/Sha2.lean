import ChaosLab.Foundation.Blocks
import ChaosLab.Foundation.Radix
import Mathlib.Data.BitVec
import Mathlib.Data.Nat.Find
import Mathlib.Data.Nat.NthRoot.Defs

/-! SHA-256 as its standard states it, for messages of whole bytes. -/

set_option autoImplicit false

namespace Foundation.Sha2

abbrev Word := BitVec 32

section Functions

variable (x y z : Word)

def choose : Word := (x &&& y) ^^^ (~~~x &&& z)

def majority : Word := (x &&& y) ^^^ (x &&& z) ^^^ (y &&& z)

def bigSigma0 : Word := x.rotateRight 2 ^^^ x.rotateRight 13 ^^^ x.rotateRight 22

def bigSigma1 : Word := x.rotateRight 6 ^^^ x.rotateRight 11 ^^^ x.rotateRight 25

def smallSigma0 : Word := x.rotateRight 7 ^^^ x.rotateRight 18 ^^^ x >>> 3

def smallSigma1 : Word := x.rotateRight 17 ^^^ x.rotateRight 19 ^^^ x >>> 10

end Functions

/-- The first sixty-four primes. -/
def primes : List Nat := [
  2, 3, 5, 7, 11, 13, 17, 19, 23, 29, 31, 37, 41, 43, 47, 53, 59, 61, 67, 71, 73, 79, 83, 89, 97,
  101, 103, 107, 109, 113, 127, 131, 137, 139, 149, 151, 157, 163, 167, 173, 179, 181, 191, 193,
  197, 199, 211, 223, 227, 229, 233, 239, 241, 251, 257, 263, 269, 271, 277, 281, 283, 293, 307,
  311]

/-- The first thirty-two bits of the fractional part of the root of a prime. -/
def rootFraction (degree prime : Nat) : Word :=
  BitVec.ofNat 32 (Nat.nthRoot degree (prime * 2 ^ (32 * degree)))

/-- The constants of the rounds, from the cube roots. -/
def constants : List Word := primes.map (rootFraction 3)

/-- The eight working variables, or the eight words of a hash value. -/
structure Variables where
  a : Word
  b : Word
  c : Word
  d : Word
  e : Word
  f : Word
  g : Word
  h : Word
deriving DecidableEq

/-- The hash value to start from, from the square roots of the first eight primes. -/
def initial : Variables where
  a := rootFraction 2 2
  b := rootFraction 2 3
  c := rootFraction 2 5
  d := rootFraction 2 7
  e := rootFraction 2 11
  f := rootFraction 2 13
  g := rootFraction 2 17
  h := rootFraction 2 19

/-- The bytes of a number, the most significant first. -/
def bytesBE (width number : Nat) : List UInt8 := (lowDigits 256 width number).map UInt8.ofNat

theorem exists_zeros (length : Nat) : ∃ zeros, (length + 1 + zeros) % 64 = 56 :=
  ⟨119 - length % 64, by omega⟩

/-- A one bit and as few zero bits as bring the length to 448 modulo 512, then the length in
bits. The one bit and the first seven zeros are the byte 80. -/
def pad (message : List UInt8) : List UInt8 :=
  message ++ [0x80] ++ List.replicate (Nat.find (exists_zeros message.length)) 0 ++
    bytesBE 8 (8 * message.length)

/-- A word of a block of the padded message. -/
def messageWord (block : List UInt8) (t : Nat) : Word :=
  BitVec.ofNat 32 (ofDigitsBE 256
    [(block.getD (4 * t) 0).toNat, (block.getD (4 * t + 1) 0).toNat,
      (block.getD (4 * t + 2) 0).toNat, (block.getD (4 * t + 3) 0).toNat])

/-- The message schedule. -/
def scheduleWord (block : List UInt8) (t : Nat) : Word :=
  if t < 16 then messageWord block t
  else smallSigma1 (scheduleWord block (t - 2)) + scheduleWord block (t - 7) +
    smallSigma0 (scheduleWord block (t - 15)) + scheduleWord block (t - 16)

def round (block : List UInt8) (v : Variables) (t : Nat) : Variables :=
  let t1 := v.h + bigSigma1 v.e + choose v.e v.f v.g + constants.getD t 0 + scheduleWord block t
  let t2 := bigSigma0 v.a + majority v.a v.b v.c
  { a := t1 + t2, b := v.a, c := v.b, d := v.c, e := v.d + t1, f := v.e, g := v.f, h := v.g }

/-- The next hash value, from the last one and a block. -/
def compress (hash : Variables) (block : List UInt8) : Variables :=
  let v := (List.range 64).foldl (round block) hash
  { a := v.a + hash.a, b := v.b + hash.b, c := v.c + hash.c, d := v.d + hash.d
    e := v.e + hash.e, f := v.f + hash.f, g := v.g + hash.g, h := v.h + hash.h }

def Variables.bytes (hash : Variables) : List UInt8 :=
  [hash.a, hash.b, hash.c, hash.d, hash.e, hash.f, hash.g, hash.h].flatMap fun word =>
    bytesBE 4 word.toNat

def sha256 (message : List UInt8) : List UInt8 :=
  ((blocks 64 (pad message)).foldl compress initial).bytes

end Foundation.Sha2

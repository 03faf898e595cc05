import ChaosLab.Text

/-! SHA-256 as `digest.cpp` computes it: a streaming state with a partly filled
block, compressed whenever the block is full. -/

set_option autoImplicit false

namespace ChaosLab

def rotr (word amount : UInt32) : UInt32 := (word >>> amount) ||| (word <<< (32 - amount))

def roundConstants : List UInt32 := [
  0x428a2f98, 0x71374491, 0xb5c0fbcf, 0xe9b5dba5, 0x3956c25b, 0x59f111f1, 0x923f82a4, 0xab1c5ed5,
  0xd807aa98, 0x12835b01, 0x243185be, 0x550c7dc3, 0x72be5d74, 0x80deb1fe, 0x9bdc06a7, 0xc19bf174,
  0xe49b69c1, 0xefbe4786, 0x0fc19dc6, 0x240ca1cc, 0x2de92c6f, 0x4a7484aa, 0x5cb0a9dc, 0x76f988da,
  0x983e5152, 0xa831c66d, 0xb00327c8, 0xbf597fc7, 0xc6e00bf3, 0xd5a79147, 0x06ca6351, 0x14292967,
  0x27b70a85, 0x2e1b2138, 0x4d2c6dfc, 0x53380d13, 0x650a7354, 0x766a0abb, 0x81c2c92e, 0x92722c85,
  0xa2bfe8a1, 0xa81a664b, 0xc24b8b70, 0xc76c51a3, 0xd192e819, 0xd6990624, 0xf40e3585, 0x106aa070,
  0x19a4c116, 0x1e376c08, 0x2748774c, 0x34b0bcb5, 0x391c0cb3, 0x4ed8aa4a, 0x5b9cca4f, 0x682e6ff3,
  0x748f82ee, 0x78a5636f, 0x84c87814, 0x8cc70208, 0x90befffa, 0xa4506ceb, 0xbef9a3f7, 0xc67178f2]

@[ext]
structure Digest256 where
  data : Bytes
  size : data.length = 32
deriving DecidableEq

namespace Digest256

def hex (digest : Digest256) : Bytes :=
  digest.data.flatMap fun byte : UInt8 =>
    [hexDigits.getD (byte >>> 4).toNat 0, hexDigits.getD (byte &&& 0x0f).toNat 0]

theorem length_hex (digest : Digest256) : digest.hex.length = 64 := by
  simp [hex, digest.size]

def toU64 (digest : Digest256) (word : Nat) : UInt64 :=
  ((digest.data.drop (word * 8)).take 8).foldl
    (fun value byte => (value <<< 8) ||| byte.toUInt64) 0

/-- `operator==`, which compares the four 64-bit words. -/
def equal (left right : Digest256) : Bool :=
  left.toU64 0 == right.toU64 0 && left.toU64 1 == right.toU64 1 &&
    left.toU64 2 == right.toU64 2 && left.toU64 3 == right.toU64 3

end Digest256

structure Registers where
  a : UInt32
  b : UInt32
  c : UInt32
  d : UInt32
  e : UInt32
  f : UInt32
  g : UInt32
  h : UInt32
deriving DecidableEq

def blockWords (block : Bytes) : List UInt32 :=
  (List.range 16).map fun i =>
    ((block.getD (i * 4) 0).toUInt32 <<< 24) ||| ((block.getD (i * 4 + 1) 0).toUInt32 <<< 16) |||
      ((block.getD (i * 4 + 2) 0).toUInt32 <<< 8) ||| (block.getD (i * 4 + 3) 0).toUInt32

/-- One step of the schedule loop: appends `w[i]` where `i` is the number of
words written so far. -/
def extendSchedule (w : List UInt32) : List UInt32 :=
  let i := w.length
  let w15 := w.getD (i - 15) 0
  let w2 := w.getD (i - 2) 0
  let s0 := rotr w15 7 ^^^ rotr w15 18 ^^^ (w15 >>> 3)
  let s1 := rotr w2 17 ^^^ rotr w2 19 ^^^ (w2 >>> 10)
  w ++ [w.getD (i - 16) 0 + s0 + w.getD (i - 7) 0 + s1]

def schedule (block : Bytes) : List UInt32 := Nat.iterate extendSchedule 48 (blockWords block)

def compressRound (w : List UInt32) (v : Registers) (i : Nat) : Registers :=
  let s1 := rotr v.e 6 ^^^ rotr v.e 11 ^^^ rotr v.e 25
  let ch := (v.e &&& v.f) ^^^ (~~~v.e &&& v.g)
  let temp1 := v.h + s1 + ch + roundConstants.getD i 0 + w.getD i 0
  let s0 := rotr v.a 2 ^^^ rotr v.a 13 ^^^ rotr v.a 22
  let maj := (v.a &&& v.b) ^^^ (v.a &&& v.c) ^^^ (v.b &&& v.c)
  let temp2 := s0 + maj
  { a := temp1 + temp2, b := v.a, c := v.b, d := v.c
    e := v.d + temp1, f := v.e, g := v.f, h := v.g }

def processBlock (state : Registers) (block : Bytes) : Registers :=
  let v := (List.range 64).foldl (compressRound (schedule block)) state
  { a := state.a + v.a, b := state.b + v.b, c := state.c + v.c, d := state.d + v.d
    e := state.e + v.e, f := state.f + v.f, g := state.g + v.g, h := state.h + v.h }

/-- The streaming hash. `buffer` holds the first `buffered_` bytes of `buffer_`;
a full block is compressed at once, so it is never kept. -/
structure Sha256 where
  state : Registers
  total : UInt64
  buffer : Bytes
  room : buffer.length < 64

namespace Sha256

def reset : Sha256 where
  state := {
    a := 0x6a09e667, b := 0xbb67ae85, c := 0x3c6ef372, d := 0xa54ff53a
    e := 0x510e527f, f := 0x9b05688c, g := 0x1f83d9ab, h := 0x5be0cd19 }
  total := 0
  buffer := []
  room := by decide

def absorb (hash : Sha256) (data : Bytes) : Sha256 :=
  if _nonempty : 0 < data.length then
    let taken := min (64 - hash.buffer.length) data.length
    if full : (hash.buffer ++ data.take taken).length = 64 then
      absorb { hash with
        state := processBlock hash.state (hash.buffer ++ data.take taken)
        buffer := []
        room := by decide } (data.drop taken)
    else
      absorb { hash with
        buffer := hash.buffer ++ data.take taken
        room := by
          have bound := hash.room
          simp only [List.length_append, List.length_take] at full ⊢
          omega } (data.drop taken)
  else
    hash
termination_by data.length
decreasing_by
  all_goals
    have bound := hash.room
    simp only [List.length_drop]
    omega

def update (hash : Sha256) (data : Bytes) : Sha256 :=
  { hash with total := hash.total + UInt64.ofNat data.length }.absorb data

theorem absorb_nil (hash : Sha256) : hash.absorb [] = hash := by
  rw [absorb]
  simp

theorem length_buffer_update_singleton (hash : Sha256) (byte : UInt8) :
    (hash.update [byte]).buffer.length = (hash.buffer.length + 1) % 64 := by
  have bound := hash.room
  have taken : min (64 - hash.buffer.length) 1 = 1 := by omega
  rw [update, absorb]
  simp only [List.length_singleton, Nat.lt_one_iff, dite_true, taken,
    List.take_succ_cons, List.take_zero, List.length_append, List.drop_succ_cons, List.drop_nil,
    absorb_nil]
  split
  · rename_i full
    simp only [List.length_nil]
    omega
  · simp only [List.length_append, List.length_singleton]
    omega

def padZeros (hash : Sha256) : Sha256 :=
  if hash.buffer.length = 56 then hash else padZeros (hash.update [0])
termination_by (120 - hash.buffer.length) % 64
decreasing_by
  have bound := hash.room
  rw [length_buffer_update_singleton]
  omega

def wordBytes (word : UInt32) : Bytes :=
  [(word >>> 24).toUInt8, (word >>> 16).toUInt8, (word >>> 8).toUInt8, word.toUInt8]

def lengthBytes (bitLength : UInt64) : Bytes :=
  (List.range 8).map fun i => (bitLength >>> UInt64.ofNat (56 - 8 * i)).toUInt8

def finish (hash : Sha256) : Digest256 :=
  let padded := (hash.update [0x80]).padZeros
  let state := (padded.update (lengthBytes (hash.total * 8))).state
  { data := wordBytes state.a ++ wordBytes state.b ++ wordBytes state.c ++ wordBytes state.d ++
      wordBytes state.e ++ wordBytes state.f ++ wordBytes state.g ++ wordBytes state.h
    size := rfl }

end Sha256

def Digest256.sha256 (message : Bytes) : Digest256 := (Sha256.reset.update message).finish

end ChaosLab

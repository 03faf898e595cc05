import ChaosLab.Bytes

/-! The frame codec of `transport.cpp`: magic, type, length and payload, the numbers
in four little-endian bytes. -/

set_option autoImplicit false

namespace ChaosLab

structure Frame where
  type : UInt32 := 0
  payload : Bytes := []
deriving DecidableEq

namespace Frame

def magic : UInt32 := 0x4348414f

/-- `Frame::HEADER`, the size of a header. -/
def header : Nat := 12

def put32 (value : UInt32) : Bytes :=
  [(value &&& 0xff).toUInt8, (value >>> 8 &&& 0xff).toUInt8, (value >>> 16 &&& 0xff).toUInt8,
    (value >>> 24 &&& 0xff).toUInt8]

/-- The length field holds the size of the payload modulo `2 ^ 32`. -/
def encode (frame : Frame) : Bytes :=
  put32 magic ++ put32 frame.type ++ put32 (UInt32.ofNat frame.payload.length) ++ frame.payload

def get32 (src : Bytes) (off : Nat) : UInt32 :=
  (src.getD off 0).toUInt32 ||| (src.getD (off + 1) 0).toUInt32 <<< 8 |||
    (src.getD (off + 2) 0).toUInt32 <<< 16 ||| (src.getD (off + 3) 0).toUInt32 <<< 24

/-- `decode_header`: the type and the length field. -/
def decodeHeader (src : Bytes) : Option (UInt32 × UInt32) :=
  if src.length < header then none
  else if get32 src 0 ≠ magic then none
  else some (get32 src 4, get32 src 8)

/-- `decode`: the result, the frame as it leaves it, and the bytes consumed. A frame
that is not all there has its type written already. -/
def decode (src : Bytes) (out : Frame) : Bool × Frame × Nat :=
  if src.length < header then (false, out, 0)
  else if get32 src 0 ≠ magic then (false, out, 0)
  else
    let out := { out with type := get32 src 4 }
    let len := get32 src 8
    if src.length < header + len.toNat then (false, out, 0)
    else (true, { out with payload := (src.drop header).take len.toNat }, header + len.toNat)

theorem decodeHeader_eq_some_iff {src : Bytes} {type len : UInt32} :
    decodeHeader src = some (type, len) ↔
      ¬ src.length < header ∧ get32 src 0 = magic ∧ get32 src 4 = type ∧ get32 src 8 = len := by
  unfold decodeHeader
  split_ifs with short foreign
  · simp [short]
  · simp [foreign]
  · rw [not_not] at foreign
    simp [short, foreign]

theorem decode_of_decodeHeader_none {src : Bytes} (refused : decodeHeader src = none)
    (out : Frame) : decode src out = (false, out, 0) := by
  unfold decodeHeader at refused
  unfold decode
  by_cases short : src.length < header
  · rw [if_pos short]
  · by_cases foreign : get32 src 0 ≠ magic
    · rw [if_neg short, if_pos foreign]
    · rw [if_neg short, if_neg foreign] at refused
      cases refused

theorem decode_of_decodeHeader {src : Bytes} {type len : UInt32}
    (read : decodeHeader src = some (type, len)) (out : Frame) :
    decode src out =
      if src.length < header + len.toNat then (false, { out with type := type }, 0)
      else (true, ⟨type, (src.drop header).take len.toNat⟩, header + len.toNat) := by
  obtain ⟨long, own, rfl, rfl⟩ := decodeHeader_eq_some_iff.mp read
  rw [decode, if_neg long, if_neg (not_not_intro own)]

theorem decode_eq_true {src : Bytes} {out frame : Frame} {consumed : Nat}
    (decoded : decode src out = (true, frame, consumed)) :
    ∃ type len, decodeHeader src = some (type, len) ∧ header + len.toNat ≤ src.length ∧
      frame = ⟨type, (src.drop header).take len.toNat⟩ ∧ consumed = header + len.toNat := by
  cases read : decodeHeader src with
  | none =>
      rw [decode_of_decodeHeader_none read] at decoded
      cases decoded
  | some fields =>
      obtain ⟨type, len⟩ := fields
      rw [decode_of_decodeHeader read] at decoded
      by_cases short : src.length < header + len.toNat
      · rw [if_pos short] at decoded
        cases decoded
      · rw [if_neg short, Prod.mk.injEq, Prod.mk.injEq] at decoded
        exact ⟨type, len, rfl, Nat.le_of_not_lt short, decoded.2.1.symm, decoded.2.2.symm⟩

theorem length_drop_consumed {src : Bytes} {out frame : Frame} {consumed : Nat}
    (decoded : decode src out = (true, frame, consumed)) :
    (src.drop consumed).length < src.length := by
  obtain ⟨type, len, -, fits, -, rfl⟩ := decode_eq_true decoded
  rw [List.length_drop]
  unfold header at *
  omega

/-- Decoding from the front again and again, as far as it goes: the frames, and what
is left. -/
def decodeAll (src : Bytes) : List Frame × Bytes :=
  match _decoded : decode src {} with
  | (true, frame, consumed) =>
      let rest := decodeAll (src.drop consumed)
      (frame :: rest.1, rest.2)
  | (false, _, _) => ([], src)
termination_by src.length
decreasing_by exact length_drop_consumed _decoded

end Frame

end ChaosLab

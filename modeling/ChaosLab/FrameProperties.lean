import ChaosLab.Frame
import ChaosLab.Foundation.Arrivals
import ChaosLab.Foundation.Framing
import ChaosLab.Foundation.Words

/-! The two decoders of a frame invert the encoder, on a single buffer and along a
stream of frames cut off anywhere. -/

set_option autoImplicit false

namespace ChaosLab

open Foundation

namespace Frame

section Words

theorem toNat_get32 (before rest : Bytes) (first second third fourth : UInt8) :
    (get32 (before ++ first :: second :: third :: fourth :: rest) before.length).toNat =
      first.toNat + second.toNat * 2 ^ 8 + third.toNat * 2 ^ 16 + fourth.toNat * 2 ^ 24 := by
  have low := first.toNat_lt
  have lower : first.toNat + second.toNat * 2 ^ 8 < 2 ^ 16 := by
    have := second.toNat_lt
    omega
  have middle : first.toNat + second.toNat * 2 ^ 8 + third.toNat * 2 ^ 16 < 2 ^ 24 := by
    have := third.toNat_lt
    omega
  have assembled : get32 (before ++ first :: second :: third :: fourth :: rest) before.length =
      first.toUInt32 ||| second.toUInt32 <<< 8 ||| third.toUInt32 <<< 16 |||
        fourth.toUInt32 <<< 24 := by
    simp [get32]
  rw [assembled, UInt32.toNat_or, UInt32.toNat_or, UInt32.toNat_or, UInt8.toNat_toUInt32,
    toNat_shiftLeft_byte _ (by decide : (8 : UInt32).toNat ≤ 24),
    toNat_shiftLeft_byte _ (by decide : (16 : UInt32).toNat ≤ 24),
    toNat_shiftLeft_byte _ (by decide : (24 : UInt32).toNat ≤ 24)]
  change first.toNat ||| second.toNat <<< 8 ||| third.toNat <<< 16 ||| fourth.toNat <<< 24 = _
  rw [or_shiftLeft low, or_shiftLeft lower, or_shiftLeft middle]

/-- The bytes of a word are its digits in base 256. -/
theorem put32_eq (value : UInt32) : put32 value =
    [UInt8.ofNat value.toNat, UInt8.ofNat (value.toNat / 2 ^ 8),
      UInt8.ofNat (value.toNat / 2 ^ 16), UInt8.ofNat (value.toNat / 2 ^ 24)] := by
  have masked (word : UInt32) : (word &&& 0xff).toUInt8 = UInt8.ofNat word.toNat := by
    apply UInt8.toNat_inj.mp
    have byte : word.toNat &&& 255 = word.toNat % 256 := Nat.and_two_pow_sub_one_eq_mod _ 8
    rw [UInt32.toNat_toUInt8, UInt32.toNat_and, UInt8.toNat_ofNat']
    change (word.toNat &&& 255) % 256 = word.toNat % 256
    rw [byte, Nat.mod_mod]
  simp only [put32, masked, UInt32.toNat_shiftRight, Nat.shiftRight_eq_div_pow]
  rfl

@[simp] theorem length_put32 (value : UInt32) : (put32 value).length = 4 := rfl

theorem get32_put32 (before rest : Bytes) (value : UInt32) :
    get32 (before ++ (put32 value ++ rest)) before.length = value := by
  apply UInt32.toNat_inj.mp
  have bound := value.toNat_lt
  rw [put32_eq]
  simp only [List.cons_append, List.nil_append, toNat_get32, UInt8.toNat_ofNat']
  omega

theorem put32_get32 (before rest : Bytes) {word : Bytes} (four : word.length = 4) :
    put32 (get32 (before ++ (word ++ rest)) before.length) = word := by
  obtain ⟨first, second, third, fourth, rfl⟩ : ∃ first second third fourth,
      word = [first, second, third, fourth] := by
    rcases word with _ | ⟨first, _ | ⟨second, _ | ⟨third, _ | ⟨fourth, _ | _⟩⟩⟩⟩
    all_goals first | exact ⟨_, _, _, _, rfl⟩ | simp at four
  have low := first.toNat_lt
  have lower := second.toNat_lt
  have middle := third.toNat_lt
  have top := fourth.toNat_lt
  simp only [put32_eq, List.cons_append, List.nil_append, toNat_get32, List.cons.injEq, and_true,
    ← UInt8.toNat_inj, UInt8.toNat_ofNat']
  refine ⟨?_, ?_, ?_, ?_⟩ <;> omega

end Words

section Header

def headerBytes (type len : UInt32) : Bytes := put32 magic ++ put32 type ++ put32 len

@[simp] theorem length_headerBytes (type len : UInt32) :
    (headerBytes type len).length = header := rfl

theorem encode_eq (frame : Frame) :
    encode frame = headerBytes frame.type (UInt32.ofNat frame.payload.length) ++ frame.payload :=
  rfl

theorem length_encode (frame : Frame) : frame.encode.length = header + frame.payload.length := by
  rw [encode_eq, List.length_append, length_headerBytes]

theorem decodeHeader_headerBytes (type len : UInt32) (rest : Bytes) :
    decodeHeader (headerBytes type len ++ rest) = some (type, len) := by
  have first := get32_put32 [] (put32 type ++ (put32 len ++ rest)) magic
  have second := get32_put32 (put32 magic) (put32 len ++ rest) type
  have third := get32_put32 (put32 magic ++ put32 type) rest len
  simp only [List.nil_append, List.length_nil, List.length_append, length_put32,
    List.append_assoc] at first second third
  have long : ¬ (headerBytes type len ++ rest).length < header := by simp
  rw [decodeHeader, if_neg long]
  simp only [headerBytes, List.append_assoc, first, second, third]
  rfl

theorem decodeHeader_headerBytes_self (type len : UInt32) :
    decodeHeader (headerBytes type len) = some (type, len) := by
  simpa using decodeHeader_headerBytes type len []

theorem gather_header {arrivals : List (Arrival UInt8)} {type len : UInt32} {rest : Bytes}
    (arrives : incoming arrivals = headerBytes type len ++ rest) :
    ∃ later, gather header [] arrivals = (.complete (headerBytes type len), later) ∧
      incoming later = rest ∧ afterIncoming later = afterIncoming arrivals := by
  rw [← length_headerBytes type len]
  exact gather_nil_append arrives

/-- A header is accepted only as the encoder writes it. -/
theorem eq_headerBytes_of_decodeHeader {src : Bytes} {type len : UInt32}
    (read : decodeHeader src = some (type, len)) :
    ∃ rest, src = headerBytes type len ++ rest := by
  obtain ⟨long, own, rfl, rfl⟩ := decodeHeader_eq_some_iff.mp read
  unfold header at long
  obtain ⟨first, second, third, rest, rfl, four, four', four''⟩ :
      ∃ first second third rest : Bytes, src = first ++ (second ++ (third ++ rest)) ∧
        first.length = 4 ∧ second.length = 4 ∧ third.length = 4 := by
    refine ⟨src.take 4, (src.drop 4).take 4, (src.drop 8).take 4, src.drop 12, ?_⟩
    have last := List.take_append_drop 4 (src.drop 8)
    have middle := List.take_append_drop 4 (src.drop 4)
    rw [List.drop_drop] at last middle
    simp only [last, middle, List.take_append_drop, List.length_take, List.length_drop,
      true_and]
    omega
  refine ⟨rest, ?_⟩
  have magicBytes := put32_get32 [] (second ++ (third ++ rest)) four
  have typeBytes := put32_get32 first (third ++ rest) four'
  have lenBytes := put32_get32 (first ++ second) rest four''
  simp only [List.nil_append, List.length_nil, List.length_append, List.append_assoc, four,
    four'] at magicBytes typeBytes lenBytes
  rw [headerBytes, ← own, magicBytes, typeBytes, lenBytes]
  simp

theorem decodeHeader_take (src : Bytes) : decodeHeader (src.take header) = decodeHeader src := by
  cases read : decodeHeader (src.take header) with
  | some fields =>
      obtain ⟨type, len⟩ := fields
      obtain ⟨rest, whole⟩ := eq_headerBytes_of_decodeHeader read
      rw [← List.take_append_drop header src, whole, List.append_assoc, decodeHeader_headerBytes]
  | none =>
      cases again : decodeHeader src with
      | none => rfl
      | some fields =>
          obtain ⟨type, len⟩ := fields
          obtain ⟨rest, rfl⟩ := eq_headerBytes_of_decodeHeader again
          rw [List.take_left' (length_headerBytes _ _), decodeHeader_headerBytes_self] at read
          cases read

theorem decode_encode {frame : Frame} (small : frame.payload.length < 2 ^ 32) (rest : Bytes)
    (out : Frame) : decode (frame.encode ++ rest) out = (true, frame, frame.encode.length) := by
  have exact : (UInt32.ofNat frame.payload.length).toNat = frame.payload.length :=
    UInt32.toNat_ofNat_of_lt' small
  have read := decodeHeader_headerBytes frame.type (UInt32.ofNat frame.payload.length)
    (frame.payload ++ rest)
  rw [encode_eq, List.append_assoc, decode_of_decodeHeader read, exact, if_neg (by simp),
    List.drop_append_of_le_length (by simp), List.drop_of_length_le (by simp)]
  simp

/-- A frame that is cut off is not decoded. -/
theorem decode_of_cut {frame : Frame} (small : frame.payload.length < 2 ^ 32) {src : Bytes}
    (cut : src <+: frame.encode) (short : src.length < frame.encode.length) (out : Frame) :
    ∃ left, decode src out = (false, left, 0) := by
  cases read : decodeHeader src with
  | none => exact ⟨out, decode_of_decodeHeader_none read out⟩
  | some fields =>
      obtain ⟨type, len⟩ := fields
      obtain ⟨rest, rfl⟩ := eq_headerBytes_of_decodeHeader read
      obtain ⟨tail, whole⟩ := cut
      have written := decodeHeader_headerBytes frame.type (UInt32.ofNat frame.payload.length)
        frame.payload
      rw [← encode_eq, ← whole, List.append_assoc, decodeHeader_headerBytes, Option.some.injEq,
        Prod.mk.injEq] at written
      have size : len.toNat = frame.payload.length := by
        rw [written.2]
        exact UInt32.toNat_ofNat_of_lt' small
      rw [length_encode, ← size] at short
      exact ⟨_, by rw [decode_of_decodeHeader read, if_pos short]⟩

theorem encode_of_decode {src : Bytes} {out frame : Frame} {consumed : Nat}
    (decoded : decode src out = (true, frame, consumed)) : src.take consumed = frame.encode := by
  obtain ⟨type, len, read, fits, rfl, rfl⟩ := decode_eq_true decoded
  obtain ⟨rest, rfl⟩ := eq_headerBytes_of_decodeHeader read
  rw [List.length_append, length_headerBytes] at fits
  have size : (rest.take len.toNat).length = len.toNat := by
    rw [List.length_take]
    omega
  have skip : (headerBytes type len ++ rest).drop header = rest :=
    List.drop_left' (length_headerBytes type len)
  rw [skip, encode_eq, size, UInt32.ofNat_toNat, ← length_headerBytes type len,
    List.take_length_add_append]

theorem append_of_decode {src : Bytes} {out frame : Frame} {consumed : Nat}
    (decoded : decode src out = (true, frame, consumed)) :
    src = frame.encode ++ src.drop consumed ∧ frame.payload.length < 2 ^ 32 := by
  constructor
  · rw [← encode_of_decode decoded, List.take_append_drop]
  · obtain ⟨type, len, -, -, rfl, -⟩ := decode_eq_true decoded
    exact Nat.lt_of_le_of_lt (List.length_take_le _ _) len.toNat_lt

end Header

section Streams

theorem decodeAll_of_decode {src : Bytes} {frame : Frame} {consumed : Nat}
    (decoded : decode src {} = (true, frame, consumed)) :
    decodeAll src =
      (frame :: (decodeAll (src.drop consumed)).1, (decodeAll (src.drop consumed)).2) := by
  rw [decodeAll]
  split
  · rename_i again
    rw [decoded, Prod.mk.injEq, Prod.mk.injEq] at again
    obtain ⟨-, rfl, rfl⟩ := again
    rfl
  · rename_i refused
    rw [decoded] at refused
    cases refused

theorem decodeAll_of_refused {src : Bytes} {left : Frame} {consumed : Nat}
    (refused : decode src {} = (false, left, consumed)) : decodeAll src = ([], src) := by
  rw [decodeAll]
  split
  · rename_i decoded
    rw [refused] at decoded
    cases decoded
  · rfl

theorem decodeAll_encode_append {frame : Frame} (small : frame.payload.length < 2 ^ 32)
    (rest : Bytes) :
    decodeAll (frame.encode ++ rest) = (frame :: (decodeAll rest).1, (decodeAll rest).2) := by
  rw [decodeAll_of_decode (decode_encode small rest {}), List.drop_left]

theorem decodeAll_cases (src : Bytes) :
    (∃ left consumed, decode src {} = (false, left, consumed) ∧ decodeAll src = ([], src)) ∨
      ∃ frame rest, src = frame.encode ++ rest ∧ frame.payload.length < 2 ^ 32 ∧
        decodeAll src = (frame :: (decodeAll rest).1, (decodeAll rest).2) := by
  cases result : decode src {} with
  | mk succeeds found =>
      obtain ⟨frame, consumed⟩ := found
      cases succeeds with
      | false => exact .inl ⟨frame, consumed, rfl, decodeAll_of_refused result⟩
      | true =>
          obtain ⟨whole, small⟩ := append_of_decode result
          exact .inr ⟨frame, src.drop consumed, whole, small, decodeAll_of_decode result⟩

theorem length_payload_of_decodeAll {src : Bytes} {frame : Frame}
    (member : frame ∈ (decodeAll src).1) : frame.payload.length < 2 ^ 32 := by
  induction size : src.length using Nat.strong_induction_on generalizing src with
  | _ size ih =>
      subst size
      rcases decodeAll_cases src with ⟨left, consumed, -, decoded⟩ | ⟨first, rest, whole, small, decoded⟩
      · simp [decoded] at member
      · rw [decoded, List.mem_cons] at member
        cases member with
        | inl same => rwa [same]
        | inr later =>
            have shorter : rest.length < src.length := by
              rw [whole, List.length_append, length_encode, header]
              omega
            exact ih _ shorter later rfl

/-- Decoding any beginning of a stream gives the frames that are wholly in it, and
then stops. -/
theorem decodeAll_of_cut {frames : List Frame}
    (small : ∀ frame ∈ frames, frame.payload.length < 2 ^ 32) {src : Bytes}
    (cut : src <+: frames.flatMap encode) :
    (decodeAll src).1 = wholeWithin encode frames src.length ∧
      ∀ out, ∃ left, decode (decodeAll src).2 out = (false, left, 0) := by
  induction frames generalizing src with
  | nil =>
      obtain rfl : src = [] := by simpa using cut
      have refused (out : Frame) : decode [] out = (false, out, 0) :=
        decode_of_decodeHeader_none rfl out
      rw [decodeAll_of_refused (refused {})]
      exact ⟨rfl, fun out => ⟨out, refused out⟩⟩
  | cons frame frames ih =>
      rw [List.forall_mem_cons] at small
      rw [List.flatMap_cons] at cut
      rcases cut_cases cut with ⟨short, within⟩ | ⟨tail, rfl, rest⟩
      · have refused := decode_of_cut small.1 within short
        obtain ⟨left, stopped⟩ := refused {}
        rw [decodeAll_of_refused stopped, wholeWithin, if_neg (Nat.not_le_of_lt short)]
        exact ⟨rfl, refused⟩
      · obtain ⟨decoded, stopped⟩ := ih small.2 rest
        rw [decodeAll_encode_append small.1, wholeWithin, List.length_append,
          if_pos (Nat.le_add_right _ _), Nat.add_sub_cancel_left, decoded]
        exact ⟨rfl, stopped⟩

theorem decodeAll_flatMap {frames : List Frame}
    (small : ∀ frame ∈ frames, frame.payload.length < 2 ^ 32) :
    decodeAll (frames.flatMap encode) = (frames, []) := by
  induction frames with
  | nil => exact decodeAll_of_refused (decode_of_decodeHeader_none rfl {})
  | cons frame frames ih =>
      rw [List.forall_mem_cons] at small
      rw [List.flatMap_cons, decodeAll_encode_append small.1, ih small.2]

theorem decode_isTrue_iff {src : Bytes} {out : Frame} {type : UInt32} :
    (∃ frame consumed, decode src out = (true, frame, consumed) ∧ frame.type = type) ↔
      ∃ len, decodeHeader src = some (type, len) ∧ header + len.toNat ≤ src.length := by
  constructor
  · intro succeeds
    obtain ⟨frame, consumed, decoded, rfl⟩ := succeeds
    obtain ⟨type, len, read, fits, rfl, -⟩ := decode_eq_true decoded
    exact ⟨len, read, fits⟩
  · intro readable
    obtain ⟨len, read, fits⟩ := readable
    exact ⟨_, _, by rw [decode_of_decodeHeader read, if_neg (Nat.not_lt_of_le fits)], rfl⟩

/-- The codec is exact: along every beginning of a stream of frames, and on every
single buffer, where the two decoders agree. -/
theorem frame_codec_exact {frames : List Frame}
    (small : ∀ frame ∈ frames, frame.payload.length < 2 ^ 32) {src : Bytes}
    (cut : src <+: frames.flatMap encode) :
    ((decodeAll src).1 = wholeWithin encode frames src.length ∧
      ∀ out, ∃ left, decode (decodeAll src).2 out = (false, left, 0)) ∧
    (∀ buffer out frame consumed, decode buffer out = (true, frame, consumed) →
      consumed ≤ buffer.length ∧ buffer.take consumed = frame.encode) ∧
    (∀ buffer out type,
      (∃ frame consumed, decode buffer out = (true, frame, consumed) ∧ frame.type = type) ↔
        ∃ len, decodeHeader buffer = some (type, len) ∧ header + len.toNat ≤ buffer.length) := by
  refine ⟨decodeAll_of_cut small cut, ?_, fun _ _ _ => decode_isTrue_iff⟩
  intro buffer out frame consumed decoded
  obtain ⟨type, len, -, fits, -, rfl⟩ := decode_eq_true decoded
  exact ⟨fits, encode_of_decode decoded⟩

theorem frame_codec_exact_cut_in_second :
    ∃ src : Bytes, src <+: [(⟨7, [1, 2]⟩ : Frame), ⟨8, [3]⟩].flatMap encode ∧
      src.length = 20 ∧ (decodeAll src).1 = [⟨7, [1, 2]⟩] := by
  refine ⟨([(⟨7, [1, 2]⟩ : Frame), ⟨8, [3]⟩].flatMap encode).take 20, List.take_prefix _ _,
    by decide, ?_⟩
  rw [(frame_codec_exact (by decide) (List.take_prefix _ _)).1.1]
  decide

end Streams

end Frame

end ChaosLab

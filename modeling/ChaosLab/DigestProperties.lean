import ChaosLab.Foundation.Sha2
import ChaosLab.Foundation.Words
import ChaosLab.Digest

/-! The streaming hash computes SHA-256, however the message is cut. -/

set_option autoImplicit false

namespace ChaosLab

open Foundation

/-- The registers as the words of the standard. -/
def Registers.variables (v : Registers) : Sha2.Variables where
  a := v.a.toBitVec
  b := v.b.toBitVec
  c := v.c.toBitVec
  d := v.d.toBitVec
  e := v.e.toBitVec
  f := v.f.toBitVec
  g := v.g.toBitVec
  h := v.h.toBitVec

section Tables

theorem variables_reset : Sha256.reset.state.variables = Sha2.initial := by
  decide +kernel

theorem map_roundConstants : roundConstants.map UInt32.toBitVec = Sha2.constants := by
  decide +kernel

theorem toBitVec_roundConstants (t : Nat) :
    (roundConstants.getD t 0).toBitVec = Sha2.constants.getD t 0 := by
  rw [← map_roundConstants]
  exact (List.getD_map _ _ UInt32.toBitVec).symm

end Tables

section Words

theorem toBitVec_rotr (word amount : UInt32) (positive : 0 < amount.toNat)
    (small : amount.toNat < 32) :
    (rotr word amount).toBitVec = word.toBitVec.rotateRight amount.toNat := by
  have rest : (32 - amount).toNat = 32 - amount.toNat := by
    rw [UInt32.toNat_sub_of_le _ _ (UInt32.le_iff_toNat_le.mpr (by simp; omega))]
    rfl
  have left : (amount.toBitVec % (32 : BitVec 32)).toNat = amount.toNat := by
    rw [BitVec.toNat_umod]
    exact Nat.mod_eq_of_lt small
  have right : ((32 - amount).toBitVec % (32 : BitVec 32)).toNat = 32 - amount.toNat := by
    rw [BitVec.toNat_umod, UInt32.toNat_toBitVec, rest]
    exact Nat.mod_eq_of_lt (show 32 - amount.toNat < 32 by omega)
  rw [BitVec.rotateRight_def, Nat.mod_eq_of_lt small, rotr, UInt32.toBitVec_or,
    UInt32.toBitVec_shiftRight, UInt32.toBitVec_shiftLeft, BitVec.ushiftRight_eq',
    BitVec.shiftLeft_eq']
  rw [left, right]

theorem toBitVec_blockWords (block : Bytes) {t : Nat} (small : t < 16) :
    ((blockWords block).getD t 0).toBitVec = Sha2.messageWord block t := by
  rw [blockWords, List.getD_eq_getElem _ _ (by simpa using small), List.getElem_map,
    List.getElem_range, Nat.mul_comm, Sha2.messageWord, ← toNat_joinBytes]
  exact BitVec.eq_of_toNat_eq (by rw [UInt32.toNat_toBitVec, BitVec.toNat_ofNat, Nat.mod_eq_of_lt (UInt32.toNat_lt _)])

theorem wordBytes_eq (word : UInt32) :
    Sha256.wordBytes word = Sha2.bytesBE 4 word.toBitVec.toNat := by
  have last : word.toUInt8 = UInt8.ofNat word.toNat := by
    apply UInt8.toNat_inj.mp
    rw [UInt32.toNat_toUInt8, UInt8.toNat_ofNat']
  simp only [Sha256.wordBytes, Sha2.bytesBE, lowDigits, List.map_cons, List.map_nil, List.nil_append,
   List.cons_append, ofNat_mod, toUInt8_shiftRight32, Nat.div_div_eq_div_mul, last]
  rfl

theorem lengthBytes_eq (bitLength : UInt64) :
    Sha256.lengthBytes bitLength = Sha2.bytesBE 8 bitLength.toNat := by
  rw [Sha256.lengthBytes, Sha2.bytesBE, lowDigits_eq_map, List.map_map]
  apply List.map_congr_left
  intro index member
  have inside := List.mem_range.mp member
  have amount : (UInt64.ofNat (56 - 8 * index)).toNat % 64 = 8 * (8 - 1 - index) := by
    rw [UInt64.toNat_ofNat']
    omega
  rw [toUInt8_shiftRight64, amount, Nat.pow_mul, Function.comp_apply, ofNat_mod]

end Words

section Compression

/-- The words written so far are those of the message schedule. -/
structure Scheduled (block : Bytes) (w : List UInt32) : Prop where
  enough : 16 ≤ w.length
  words : ∀ t < w.length, (w.getD t 0).toBitVec = Sha2.scheduleWord block t

theorem scheduled_blockWords (block : Bytes) : Scheduled block (blockWords block) where
  enough := by simp [blockWords]
  words := by
    intro t inside
    have small : t < 16 := by simpa [blockWords] using inside
    rw [Sha2.scheduleWord, if_pos small, toBitVec_blockWords block small]

theorem toBitVec_smallSigma0 (word : UInt32) :
    (rotr word 7 ^^^ rotr word 18 ^^^ word >>> 3).toBitVec = Sha2.smallSigma0 word.toBitVec := by
  rw [UInt32.toBitVec_xor, UInt32.toBitVec_xor, toBitVec_rotr _ 7 (by decide) (by decide),
    toBitVec_rotr _ 18 (by decide) (by decide)]
  rfl

theorem toBitVec_smallSigma1 (word : UInt32) :
    (rotr word 17 ^^^ rotr word 19 ^^^ word >>> 10).toBitVec =
      Sha2.smallSigma1 word.toBitVec := by
  rw [UInt32.toBitVec_xor, UInt32.toBitVec_xor, toBitVec_rotr _ 17 (by decide) (by decide),
    toBitVec_rotr _ 19 (by decide) (by decide)]
  rfl

theorem toBitVec_next {block : Bytes} {w : List UInt32} (scheduled : Scheduled block w) :
    (w.getD (w.length - 16) 0 +
        (rotr (w.getD (w.length - 15) 0) 7 ^^^ rotr (w.getD (w.length - 15) 0) 18 ^^^
          w.getD (w.length - 15) 0 >>> 3) +
        w.getD (w.length - 7) 0 +
        (rotr (w.getD (w.length - 2) 0) 17 ^^^ rotr (w.getD (w.length - 2) 0) 19 ^^^
          w.getD (w.length - 2) 0 >>> 10)).toBitVec =
      Sha2.scheduleWord block w.length := by
  have enough := scheduled.enough
  have earlier {back : Nat} (positive : 0 < back) :
      (w.getD (w.length - back) 0).toBitVec = Sha2.scheduleWord block (w.length - back) :=
    scheduled.words _ (by omega)
  rw [Sha2.scheduleWord, if_neg (by omega), ← earlier (by decide : 0 < 2),
    ← earlier (by decide : 0 < 7), ← earlier (by decide : 0 < 15), ← earlier (by decide : 0 < 16)]
  rw [UInt32.toBitVec_add, UInt32.toBitVec_add, UInt32.toBitVec_add, toBitVec_smallSigma0,
    toBitVec_smallSigma1]
  ac_rfl

theorem Scheduled.extendSchedule {block : Bytes} {w : List UInt32}
    (scheduled : Scheduled block w) : Scheduled block (extendSchedule w) where
  enough := by
    have enough := scheduled.enough
    simp only [ChaosLab.extendSchedule, List.length_append, List.length_singleton]
    omega
  words := by
    intro t inside
    have length_eq : (ChaosLab.extendSchedule w).length = w.length + 1 := by
      simp [ChaosLab.extendSchedule]
    rw [length_eq] at inside
    rw [ChaosLab.extendSchedule]
    by_cases old : t < w.length
    · rw [List.getD_append _ _ _ _ old]
      exact scheduled.words t old
    · obtain rfl : t = w.length := by omega
      rw [List.getD_append_right _ _ _ _ le_rfl, Nat.sub_self]
      exact toBitVec_next scheduled

theorem scheduled_schedule (block : Bytes) :
    Scheduled block (schedule block) ∧ (schedule block).length = 64 := by
  have steps (count : Nat) : Scheduled block (Nat.iterate extendSchedule count (blockWords block)) ∧
      (Nat.iterate extendSchedule count (blockWords block)).length = 16 + count := by
    induction count with
    | zero => exact ⟨scheduled_blockWords block, by simp [blockWords]⟩
    | succ count ih =>
        rw [Function.iterate_succ_apply']
        refine ⟨ih.1.extendSchedule, ?_⟩
        rw [extendSchedule, List.length_append, List.length_singleton, ih.2]
        rfl
  exact steps 48

theorem variables_compressRound (block : Bytes) (v : Registers) {t : Nat} (small : t < 64) :
    (compressRound (schedule block) v t).variables = Sha2.round block v.variables t := by
  obtain ⟨scheduled, length_eq⟩ := scheduled_schedule block
  have word := scheduled.words t (by omega)
  simp only [compressRound, Sha2.round, Registers.variables, UInt32.toBitVec_add,
    UInt32.toBitVec_xor, UInt32.toBitVec_and, UInt32.toBitVec_not, toBitVec_roundConstants, word,
    toBitVec_rotr _ 6 (by decide) (by decide), toBitVec_rotr _ 11 (by decide) (by decide),
    toBitVec_rotr _ 25 (by decide) (by decide), toBitVec_rotr _ 2 (by decide) (by decide),
    toBitVec_rotr _ 13 (by decide) (by decide), toBitVec_rotr _ 22 (by decide) (by decide)]
  rfl

theorem variables_rounds (block : Bytes) (v : Registers) (rounds : List Nat)
    (small : ∀ t ∈ rounds, t < 64) :
    (rounds.foldl (compressRound (schedule block)) v).variables =
      rounds.foldl (Sha2.round block) v.variables := by
  induction rounds generalizing v with
  | nil => rfl
  | cons t rounds ih =>
      rw [List.forall_mem_cons] at small
      rw [List.foldl_cons, List.foldl_cons, ih _ small.2, variables_compressRound block v small.1]

theorem variables_processBlock (state : Registers) (block : Bytes) :
    (processBlock state block).variables = Sha2.compress state.variables block := by
  have rounds := variables_rounds block state (List.range 64) fun t => List.mem_range.mp
  rw [Sha2.compress, ← rounds, processBlock]
  simp only [Registers.variables, UInt32.toBitVec_add, BitVec.add_comm]

end Compression

namespace Sha256

/-- The hash after the bytes of a message: every full block is compressed, the rest is in the
buffer. -/
structure Represents (hash : Sha256) (message : Bytes) : Prop where
  state : hash.state = (blocks 64 message).foldl processBlock reset.state
  buffer : hash.buffer = leftover 64 message
  total : hash.total = UInt64.ofNat message.length

theorem represents_reset : Represents reset [] := ⟨rfl, rfl, rfl⟩

theorem absorb_eq (hash : Sha256) (data : Bytes) :
    (hash.absorb data).state =
        (blocks 64 (hash.buffer ++ data)).foldl processBlock hash.state ∧
      (hash.absorb data).buffer = leftover 64 (hash.buffer ++ data) ∧
      (hash.absorb data).total = hash.total := by
  fun_induction absorb hash data with
  | case1 hash data nonempty taken full ih =>
      have joined : hash.buffer ++ data = hash.buffer ++ data.take taken ++ data.drop taken := by
        rw [List.append_assoc, List.take_append_drop]
      have even : 64 ∣ (hash.buffer ++ data.take taken).length := ⟨1, full⟩
      have cut : blocks 64 (hash.buffer ++ data) =
          (hash.buffer ++ data.take taken) :: blocks 64 (data.drop taken) := by
        rw [joined, blocks_append (by decide) even, blocks_eq_singleton (by decide) full,
          List.singleton_append]
      have rest : leftover 64 (hash.buffer ++ data) = leftover 64 (data.drop taken) := by
        rw [joined, leftover_append (by decide) even]
      rw [cut, rest, List.foldl_cons]
      exact ih
  | case2 hash data nonempty taken short ih =>
      simp only [List.append_assoc, List.take_append_drop] at ih
      exact ih
  | case3 hash data empty =>
      have nothing : data = [] := List.length_eq_zero_iff.mp (by omega)
      rw [nothing, List.append_nil, blocks_of_lt hash.room, leftover_of_lt hash.room]
      exact ⟨rfl, rfl, rfl⟩

theorem Represents.update {hash : Sha256} {message : Bytes} (represents : Represents hash message)
    (data : Bytes) : Represents (hash.update data) (message ++ data) := by
  obtain ⟨state, buffer, total⟩ :=
    absorb_eq { hash with total := hash.total + UInt64.ofNat data.length } data
  refine ⟨?_, ?_, ?_⟩
  · rw [Sha256.update, state, represents.state, represents.buffer,
      blocks_leftover_append (by decide) message data, List.foldl_append]
  · rw [Sha256.update, buffer, represents.buffer, leftover_leftover_append (by decide)]
  · rw [Sha256.update, total, represents.total, List.length_append, UInt64.ofNat_add]

theorem represents_updates (pieces : List Bytes) :
    Represents (pieces.foldl update reset) pieces.flatten := by
  induction pieces using List.reverseRecOn with
  | nil => exact represents_reset
  | append_singleton pieces piece ih =>
      rw [List.foldl_append, List.flatten_append, List.flatten_singleton]
      exact ih.update piece

/-- The loop stops at the first number of zeros that leaves room for the length alone. -/
theorem Represents.padZeros {hash : Sha256} {message : Bytes}
    (represents : Represents hash message) :
    ∃ zeros, Represents hash.padZeros (message ++ List.replicate zeros 0) ∧
      (message.length + zeros) % 64 = 56 ∧ ∀ fewer < zeros, (message.length + fewer) % 64 ≠ 56 := by
  have buffered (hash : Sha256) (message : Bytes) (known : Represents hash message) :
      hash.buffer.length = message.length % 64 := by
    rw [known.buffer, length_leftover]
  fun_induction Sha256.padZeros hash generalizing message with
  | case1 hash done =>
      refine ⟨0, ?_, ?_, ?_⟩
      · simpa using represents
      · rw [Nat.add_zero, ← buffered hash message represents, done]
      · intro fewer negative
        omega
  | case2 hash more ih =>
      obtain ⟨zeros, padded, reached, before⟩ := ih (represents.update [0])
      rw [List.length_append, List.length_singleton] at reached before
      refine ⟨zeros + 1, ?_, ?_, ?_⟩
      · rw [List.append_assoc] at padded
        exact padded
      · rw [← reached]
        congr 1
        omega
      · intro fewer less
        cases fewer with
        | zero =>
            rw [Nat.add_zero, ← buffered hash message represents]
            exact more
        | succ fewer =>
            have earlier := before fewer (by omega)
            rwa [Nat.add_right_comm] at earlier

theorem represents_pad {hash : Sha256} {message : Bytes} (represents : Represents hash message)
    (short : message.length < 2 ^ 61) :
    Represents ((hash.update [0x80]).padZeros.update (lengthBytes (hash.total * 8)))
      (Sha2.pad message) := by
  obtain ⟨zeros, padded, reached, before⟩ := (represents.update [0x80]).padZeros
  rw [List.length_append, List.length_singleton] at reached before
  have least : Nat.find (Sha2.exists_zeros message.length) = zeros :=
    (Nat.find_eq_iff _).mpr ⟨reached, before⟩
  have bits : (hash.total * 8).toNat = 8 * message.length := by
    rw [represents.total, UInt64.toNat_mul, UInt64.toNat_ofNat']
    change message.length % 2 ^ 64 * 8 % 2 ^ 64 = 8 * message.length
    omega
  have complete := padded.update (lengthBytes (hash.total * 8))
  rw [Sha2.pad, least, ← bits, ← lengthBytes_eq]
  exact complete

theorem variables_blocks (state : Registers) (cut : List Bytes) :
    (cut.foldl processBlock state).variables = cut.foldl Sha2.compress state.variables := by
  induction cut generalizing state with
  | nil => rfl
  | cons block cut ih => rw [List.foldl_cons, List.foldl_cons, ih, variables_processBlock]

theorem data_finish {hash : Sha256} {message : Bytes} (represents : Represents hash message)
    (short : message.length < 2 ^ 61) : hash.finish.data = Sha2.sha256 message := by
  have padded := represents_pad represents short
  rw [Sha2.sha256, ← variables_reset, ← variables_blocks, ← padded.state, finish]
  simp only [wordBytes_eq, Sha2.Variables.bytes, Registers.variables, List.flatMap_cons,
    List.flatMap_nil, List.append_nil, List.append_assoc]

/-- However the message is cut, the hash ends with the digest of the whole. -/
theorem finish_updates (pieces : List Bytes) (short : pieces.flatten.length < 2 ^ 61) :
    (pieces.foldl update reset).finish.data = Sha2.sha256 pieces.flatten ∧
      (pieces.foldl update reset).finish = Digest256.sha256 pieces.flatten := by
  have whole := data_finish (represents_updates pieces) short
  have single := data_finish (represents_reset.update pieces.flatten) short
  refine ⟨whole, ?_⟩
  apply Digest256.ext
  rw [whole, Digest256.sha256, single, List.nil_append]

theorem finish_updates_empty_piece :
    ([[0x61], [], [0x62, 0x63]].foldl update reset).finish =
      Digest256.sha256 [0x61, 0x62, 0x63] :=
  (finish_updates [[0x61], [], [0x62, 0x63]] (by decide)).2

end Sha256

end ChaosLab

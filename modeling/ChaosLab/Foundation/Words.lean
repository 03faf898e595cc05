import ChaosLab.Foundation.Radix

/-! Bytes put together to machine words and taken out of them again. -/

set_option autoImplicit false

namespace Foundation

theorem or_shiftLeft {low high width : Nat} (fits : low < 2 ^ width) :
    low ||| high <<< width = low + high * 2 ^ width := by
  rw [Nat.or_comm, ← Nat.shiftLeft_add_eq_or_of_lt fits, Nat.shiftLeft_eq, Nat.add_comm]

theorem shiftLeft_or_shiftLeft (high width : Nat) {low : Nat} (small : low < 2 ^ 8) :
    high <<< (8 + width) ||| low <<< width = (high * 256 + low) <<< width := by
  have joined : high <<< 8 ||| low = high * 256 + low := by
    rw [← Nat.shiftLeft_add_eq_or_of_lt small, Nat.shiftLeft_eq]
  rw [Nat.shiftLeft_add, ← Nat.shiftLeft_or_distrib, joined]

theorem toNat_shiftLeft_byte (byte : UInt8) {width : UInt32} (small : width.toNat ≤ 24) :
    (byte.toUInt32 <<< width).toNat = byte.toNat <<< width.toNat := by
  have bound := byte.toNat_lt
  have places : width.toNat < 32 := by omega
  rw [UInt32.toNat_shiftLeft, UInt8.toNat_toUInt32, Nat.mod_eq_of_lt places, Nat.shiftLeft_eq]
  apply Nat.mod_eq_of_lt
  calc
    byte.toNat * 2 ^ width.toNat < 2 ^ 8 * 2 ^ width.toNat :=
      Nat.mul_lt_mul_of_pos_right bound (Nat.two_pow_pos _)
    _ ≤ 2 ^ 8 * 2 ^ 24 := Nat.mul_le_mul_left _ (Nat.pow_le_pow_right (by decide) small)
    _ = 2 ^ 32 := rfl

/-- Four bytes, the most significant first. -/
theorem toNat_joinBytes (first second third fourth : UInt8) :
    (first.toUInt32 <<< 24 ||| second.toUInt32 <<< 16 ||| third.toUInt32 <<< 8 |||
        fourth.toUInt32).toNat =
      ofDigitsBE 256 [first.toNat, second.toNat, third.toNat, fourth.toNat] := by
  rw [UInt32.toNat_or, UInt32.toNat_or, UInt32.toNat_or, UInt8.toNat_toUInt32,
    toNat_shiftLeft_byte _ (by decide : (24 : UInt32).toNat ≤ 24),
    toNat_shiftLeft_byte _ (by decide : (16 : UInt32).toNat ≤ 24),
    toNat_shiftLeft_byte _ (by decide : (8 : UInt32).toNat ≤ 24)]
  have upper := shiftLeft_or_shiftLeft first.toNat 16 second.toNat_lt
  have middle := shiftLeft_or_shiftLeft (first.toNat * 256 + second.toNat) 8 third.toNat_lt
  have lower := shiftLeft_or_shiftLeft ((first.toNat * 256 + second.toNat) * 256 + third.toNat) 0
    fourth.toNat_lt
  change first.toNat <<< 24 ||| second.toNat <<< 16 ||| third.toNat <<< 8 ||| fourth.toNat = _
  rw [upper, middle]
  simpa [ofDigitsBE] using lower

theorem toUInt8_shiftRight32 (word amount : UInt32) :
    (word >>> amount).toUInt8 = UInt8.ofNat (word.toNat / 2 ^ (amount.toNat % 32)) := by
  apply UInt8.toNat_inj.mp
  rw [UInt32.toNat_toUInt8, UInt32.toNat_shiftRight, Nat.shiftRight_eq_div_pow,
    UInt8.toNat_ofNat']

theorem toUInt8_shiftRight64 (word amount : UInt64) :
    (word >>> amount).toUInt8 = UInt8.ofNat (word.toNat / 2 ^ (amount.toNat % 64)) := by
  apply UInt8.toNat_inj.mp
  rw [UInt64.toNat_toUInt8, UInt64.toNat_shiftRight, Nat.shiftRight_eq_div_pow,
    UInt8.toNat_ofNat']

theorem ofNat_add_one (count : Nat) : UInt64.ofNat (count + 1) = UInt64.ofNat count + 1 := by
  rw [UInt64.ofNat_add]
  rfl

theorem toNat_topBit_or {number : Nat} (small : number < 2 ^ 63) :
    ((1 : UInt64) <<< 63 ||| UInt64.ofNat number).toNat = 2 ^ 63 + number := by
  have exact : (UInt64.ofNat number).toNat = number :=
    UInt64.toNat_ofNat_of_lt' (Nat.lt_trans small (by decide))
  have top : ((1 : UInt64) <<< 63).toNat = 2 ^ 63 * 1 := by decide
  rw [UInt64.toNat_or, exact, top, ← Nat.two_pow_add_eq_or_of_lt small, Nat.mul_one]

theorem topBit_or_ofNat_inj {first second : Nat} (small : first < 2 ^ 63)
    (low : second < 2 ^ 63)
    (same : (1 : UInt64) <<< 63 ||| UInt64.ofNat first =
      (1 : UInt64) <<< 63 ||| UInt64.ofNat second) :
    first = second := by
  have values := congrArg UInt64.toNat same
  rw [toNat_topBit_or small, toNat_topBit_or low] at values
  omega

theorem ofNat_mod (number : Nat) : UInt8.ofNat (number % 256) = UInt8.ofNat number := by
  apply UInt8.toNat_inj.mp
  rw [UInt8.toNat_ofNat', UInt8.toNat_ofNat', Nat.mod_mod]

end Foundation

import ChaosLab.Foundation.Mixing
import ChaosLab.Random

/-! The stream does not repeat an output before it has given all of them, and what is drawn
from it stays within its bounds. -/

set_option autoImplicit false

namespace ChaosLab

open Foundation

namespace SplitMix64

/-- The output that belongs to a state. -/
def mix (state : UInt64) : UInt64 :=
  let z := (state ^^^ state >>> 30) * 0xbf58476d1ce4e5b9
  let z := (z ^^^ z >>> 27) * 0x94d049bb133111eb
  z ^^^ z >>> 31

def increment : UInt64 := 0x9e3779b97f4a7c15

theorem next_eq (rng : SplitMix64) :
    rng.next = (mix (rng.state + increment), ⟨rng.state + increment⟩) := rfl

theorem xorShift_injective {amount : UInt64} (positive : 0 < amount.toNat % 64) :
    Function.Injective fun word : UInt64 => word ^^^ word >>> amount := by
  intro left right same
  apply UInt64.toBitVec_inj.mp
  apply Foundation.xorShift_injective positive
  have words := congrArg UInt64.toBitVec same
  simpa using words

theorem mul_injective {factor inverse : UInt64} (unit : factor * inverse = 1) :
    Function.Injective fun word : UInt64 => word * factor := by
  intro left right same
  apply UInt64.toBitVec_inj.mp
  apply mul_right_injective_of_unit (congrArg UInt64.toBitVec unit)
  exact congrArg UInt64.toBitVec same

theorem mix_injective : Function.Injective mix := by
  intro left right same
  have third := xorShift_injective (by decide) same
  have second := mul_injective
    (by decide : (0x94d049bb133111eb : UInt64) * 0x319642b2d24d8ec3 = 1) third
  have first := xorShift_injective (by decide) second
  have scaled := mul_injective
    (by decide : (0xbf58476d1ce4e5b9 : UInt64) * 0x96de1b173f119089 = 1) first
  exact xorShift_injective (by decide) scaled

/-- The generator after a number of calls of `next`. -/
def advance (rng : SplitMix64) : Nat → SplitMix64
  | 0 => rng
  | calls + 1 => (advance rng calls).next.2

/-- What the call after that many calls returns. -/
def output (rng : SplitMix64) (calls : Nat) : UInt64 := (rng.advance calls).next.1

theorem advance_state (rng : SplitMix64) (calls : Nat) :
    (rng.advance calls).state = rng.state + UInt64.ofNat calls * increment := by
  induction calls with
  | zero => simp [advance]
  | succ calls ih =>
      rw [advance, next_eq, ih, UInt64.ofNat_add, UInt64.add_mul, UInt64.add_assoc]
      rfl

theorem advance_next (rng : SplitMix64) (calls : Nat) :
    rng.next.2.advance calls = rng.advance (calls + 1) := by
  induction calls with
  | zero => rw [advance, advance, advance]
  | succ calls ih => rw [advance, ih, ← advance]

theorem output_next (rng : SplitMix64) (calls : Nat) :
    rng.next.2.output calls = rng.output (calls + 1) := by
  rw [output, output, advance_next]

/-- The increment is odd, so the state comes back only after all of its values, and no two
states have the same output. -/
theorem output_injective (rng : SplitMix64) {first second : Nat} (low : first < 2 ^ 64)
    (small : second < 2 ^ 64) (same : rng.output first = rng.output second) :
    first = second := by
  rw [output, output, next_eq, next_eq, advance_state, advance_state] at same
  have states := mix_injective same
  have strides := congrArg UInt64.toBitVec ((UInt64.add_left_inj increment).mp states)
  simp only [UInt64.toBitVec_add, UInt64.toBitVec_mul, UInt64.toBitVec_ofNat'] at strides
  have unit : increment.toBitVec * 0xf1de83e19937733d#64 = 1#64 :=
    congrArg UInt64.toBitVec (by decide : increment * 0xf1de83e19937733d = 1)
  exact stride_injective unit low small strides

section Bounded

variable {lo hi : UInt64}

theorem toNat_span (rising : lo < hi) :
    (hi - lo + 1).toNat = (hi.toNat - lo.toNat + 1) % 2 ^ 64 := by
  have order : lo.toNat < hi.toNat := UInt64.lt_iff_toNat_lt.mp rising
  rw [UInt64.toNat_add, UInt64.toNat_sub_of_le _ _ (UInt64.le_iff_toNat_le.mpr order.le)]
  rfl

/-- The length of the range wraps to zero for the range of all words only. -/
theorem span_eq_zero_iff (rising : lo < hi) :
    hi - lo + 1 = 0 ↔ lo = 0 ∧ hi.toNat = 2 ^ 64 - 1 := by
  have order : lo.toNat < hi.toNat := UInt64.lt_iff_toNat_lt.mp rising
  have bound := hi.toNat_lt
  rw [← UInt64.toNat_inj, ← UInt64.toNat_inj, toNat_span rising, UInt64.toNat_zero]
  constructor
  · intro zero
    have multiple := Nat.dvd_of_mod_eq_zero zero
    have least := Nat.le_of_dvd (by omega) multiple
    omega
  · intro whole
    obtain ⟨low, high⟩ := whole
    omega

theorem uniform_of_le (rng : SplitMix64) (falling : hi ≤ lo) :
    rng.uniform lo hi = some (lo, rng) := by
  rw [uniform, if_pos falling]

theorem uniform_of_lt (rng : SplitMix64) (rising : lo < hi) :
    rng.uniform lo hi = if hi - lo + 1 = 0 then none
      else some (lo + rng.next.1 % (hi - lo + 1), rng.next.2) := by
  rw [uniform, if_neg (UInt64.not_le.mpr rising)]

/-- The sum does not wrap, since the remainder is at most `hi - lo`. -/
theorem add_mod_span_mem (rising : lo < hi) (nonzero : hi - lo + 1 ≠ 0) (word : UInt64) :
    lo ≤ lo + word % (hi - lo + 1) ∧ lo + word % (hi - lo + 1) ≤ hi := by
  have order : lo.toNat < hi.toNat := UInt64.lt_iff_toNat_lt.mp rising
  have bound := hi.toNat_lt
  have drawn : (word % (hi - lo + 1)).toNat < (hi - lo + 1).toNat :=
    UInt64.lt_iff_toNat_lt.mp (UInt64.mod_lt _ (UInt64.pos_iff_ne_zero.mpr nonzero))
  have span := toNat_span rising
  have narrow := Nat.mod_le (hi.toNat - lo.toNat + 1) (2 ^ 64)
  have sum : (lo + word % (hi - lo + 1)).toNat = lo.toNat + (word % (hi - lo + 1)).toNat := by
    rw [UInt64.toNat_add]
    exact Nat.mod_eq_of_lt (by omega)
  rw [UInt64.le_iff_toNat_le, UInt64.le_iff_toNat_le, sum]
  omega

/-- What a draw between two bounds has to give. -/
def DrawnBetween (lo hi : UInt64) (draw : Option (UInt64 × SplitMix64)) : Prop :=
  ∃ value rest, draw = some (value, rest) ∧ (lo ≤ hi → lo ≤ value ∧ value ≤ hi) ∧
    (hi < lo → value = lo)

theorem drawnBetween_iff (rng : SplitMix64) (lo hi : UInt64) :
    DrawnBetween lo hi (rng.uniform lo hi) ↔ ¬ (lo = 0 ∧ hi.toNat = 2 ^ 64 - 1) := by
  by_cases rising : lo < hi
  · rw [← span_eq_zero_iff rising, uniform_of_lt rng rising]
    by_cases zero : hi - lo + 1 = 0
    · simp [DrawnBetween, zero]
    · have inside := add_mod_span_mem rising zero rng.next.1
      rw [if_neg zero]
      refine ⟨fun _ => zero, fun _ => ⟨_, _, rfl, fun _ => inside, ?_⟩⟩
      intro falling
      exact absurd rising (UInt64.not_lt.mpr (UInt64.le_of_lt falling))
  · have falling : hi ≤ lo := UInt64.not_lt.mp rising
    rw [uniform_of_le rng falling]
    constructor
    · intro _ whole
      obtain ⟨low, high⟩ := whole
      have order := UInt64.le_iff_toNat_le.mp falling
      rw [low, high] at order
      exact absurd order (by decide)
    · intro _
      exact ⟨lo, rng, rfl, fun order => ⟨UInt64.le_refl lo, order⟩, fun _ => rfl⟩

/-- Bounded draws keep to their bounds, unless they are asked for any word at all. -/
theorem draws_bounded_iff (rng : SplitMix64) (lo hi : UInt64) :
    (DrawnBetween lo hi (rng.uniform lo hi) ∧ ∀ n, 1 ≤ n → (rng.below n).1 < n) ↔
      ¬ (lo = 0 ∧ hi.toNat = 2 ^ 64 - 1) := by
  rw [drawnBetween_iff]
  refine and_iff_left ?_
  intro n positive
  apply below_lt
  intro zero
  rw [zero] at positive
  exact absurd positive (by decide)

theorem uniform_any_word : ¬ DrawnBetween 0 0xffffffffffffffff
    ((⟨1⟩ : SplitMix64).uniform 0 0xffffffffffffffff) := by
  intro drawn
  obtain ⟨value, rest, returned, -⟩ := drawn
  have divides : (⟨1⟩ : SplitMix64).uniform 0 0xffffffffffffffff = none := rfl
  rw [divides] at returned
  cases returned

end Bounded

end SplitMix64

end ChaosLab

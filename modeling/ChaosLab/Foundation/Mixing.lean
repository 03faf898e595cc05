import Mathlib.Data.BitVec

/-! Operations that lose nothing of a machine word. -/

set_option autoImplicit false

namespace Foundation

variable {width : Nat}

/-- A word and itself shifted down, combined by exclusive or, give the word back: its
topmost bits are not touched, and each bit below is found from a higher one. -/
theorem xorShift_injective {amount : Nat} (positive : 0 < amount) :
    Function.Injective fun word : BitVec width => word ^^^ word >>> amount := by
  intro left right same
  apply BitVec.eq_of_getLsbD_eq
  intro index _
  -- by induction on the distance from the top
  induction distance : width - index using Nat.strong_induction_on generalizing index with
  | _ distance ih =>
      have bits := congrArg (fun word => word.getLsbD index) same
      simp only [BitVec.getLsbD_xor, BitVec.getLsbD_ushiftRight] at bits
      have above : left.getLsbD (amount + index) = right.getLsbD (amount + index) := by
        by_cases inside : amount + index < width
        · exact ih (width - (amount + index)) (by omega) (amount + index) inside rfl
        · rw [BitVec.getLsbD_of_ge left _ (by omega), BitVec.getLsbD_of_ge right _ (by omega)]
      rw [above] at bits
      exact Bool.xor_left_inj.mp bits

theorem mul_right_injective_of_unit {factor inverse : BitVec width}
    (unit : factor * inverse = BitVec.ofNat width 1) :
    Function.Injective fun word : BitVec width => word * factor := by
  intro left right same
  have undone := congrArg (fun word => word * inverse) same
  simpa only [BitVec.mul_assoc, unit, BitVec.mul_one] using undone

/-- A counter that goes up by a unit does not come back before it has taken every value. -/
theorem stride_injective {start stride inverse : BitVec width}
    (unit : stride * inverse = BitVec.ofNat width 1) {first second : Nat} (low : first < 2 ^ width)
    (small : second < 2 ^ width)
    (same : start + BitVec.ofNat width first * stride =
      start + BitVec.ofNat width second * stride) : first = second := by
  have counts := mul_right_injective_of_unit unit (add_left_cancel same)
  have numbers := congrArg BitVec.toNat counts
  simpa only [BitVec.toNat_ofNat, Nat.mod_eq_of_lt low, Nat.mod_eq_of_lt small] using numbers

end Foundation

import Mathlib.Data.List.Induction
import Mathlib.Data.Nat.Digits.Defs
import Mathlib.Tactic.Ring

/-! Numbers written with the most significant digit first. -/

set_option autoImplicit false

namespace Foundation

def ofDigitsBE (base : Nat) (digits : List Nat) : Nat :=
  digits.foldl (fun value digit => value * base + digit) 0

@[simp] theorem ofDigitsBE_nil (base : Nat) : ofDigitsBE base [] = 0 := rfl

theorem ofDigitsBE_concat (base : Nat) (digits : List Nat) (last : Nat) :
    ofDigitsBE base (digits ++ [last]) = ofDigitsBE base digits * base + last := by
  simp [ofDigitsBE]

theorem ofDigitsBE_eq_ofDigits (base : Nat) (digits : List Nat) :
    ofDigitsBE base digits = Nat.ofDigits base digits.reverse := by
  induction digits using List.reverseRecOn with
  | nil => simp
  | append_singleton digits last ih =>
      rw [ofDigitsBE_concat, ih, List.reverse_append, List.reverse_singleton,
        List.singleton_append, Nat.ofDigits_cons]
      ring

theorem ofDigitsBE_append (base : Nat) (high low : List Nat) :
    ofDigitsBE base (high ++ low) =
      ofDigitsBE base high * base ^ low.length + ofDigitsBE base low := by
  rw [ofDigitsBE_eq_ofDigits, ofDigitsBE_eq_ofDigits, ofDigitsBE_eq_ofDigits, List.reverse_append,
    Nat.ofDigits_append, List.length_reverse, Nat.add_comm, Nat.mul_comm]

theorem ofDigitsBE_cons (base digit : Nat) (digits : List Nat) :
    ofDigitsBE base (digit :: digits) =
      digit * base ^ digits.length + ofDigitsBE base digits := by
  have single : ofDigitsBE base [digit] = digit := by simp [ofDigitsBE]
  rw [← List.singleton_append, ofDigitsBE_append, single]

theorem ofDigitsBE_lt {base : Nat} {digits : List Nat} (small : ∀ digit ∈ digits, digit < base) :
    ofDigitsBE base digits < base ^ digits.length := by
  induction digits with
  | nil => exact Nat.one_pos
  | cons digit digits ih =>
      have rest := ih fun other member => small other (.tail _ member)
      calc ofDigitsBE base (digit :: digits)
          = digit * base ^ digits.length + ofDigitsBE base digits := ofDigitsBE_cons ..
        _ < digit * base ^ digits.length + base ^ digits.length := Nat.add_lt_add_left rest _
        _ = (digit + 1) * base ^ digits.length := (Nat.succ_mul ..).symm
        _ ≤ base * base ^ digits.length := Nat.mul_le_mul_right _ (small digit (.head _))
        _ = base ^ (digits.length + 1) := Nat.pow_succ'.symm

theorem ofDigitsBE_reverse_digits (base number : Nat) :
    ofDigitsBE base (Nat.digits base number).reverse = number := by
  rw [ofDigitsBE_eq_ofDigits, List.reverse_reverse, Nat.ofDigits_digits]

/-- The `width` lowest digits of a number, most significant first. -/
def lowDigits (base : Nat) : Nat → Nat → List Nat
  | 0, _ => []
  | width + 1, number => lowDigits base width (number / base) ++ [number % base]

theorem length_lowDigits (base width number : Nat) :
    (lowDigits base width number).length = width := by
  induction width generalizing number with
  | zero => rfl
  | succ width ih => simp [lowDigits, ih]

theorem lowDigits_lt {base : Nat} (positive : 0 < base) {width number digit : Nat}
    (member : digit ∈ lowDigits base width number) : digit < base := by
  induction width generalizing number with
  | zero => simp [lowDigits] at member
  | succ width ih =>
      rcases List.mem_append.mp member with member | last
      · exact ih member
      · rw [List.mem_singleton.mp last]
        exact Nat.mod_lt _ positive

theorem ofDigitsBE_lowDigits {base width number : Nat} (fits : number < base ^ width) :
    ofDigitsBE base (lowDigits base width number) = number := by
  induction width generalizing number with
  | zero =>
      have zero : number = 0 := by simpa using fits
      simp [lowDigits, zero]
  | succ width ih =>
      have smaller : number / base < base ^ width := by
        apply Nat.div_lt_of_lt_mul
        rwa [Nat.mul_comm, ← Nat.pow_succ]
      rw [lowDigits, ofDigitsBE_concat, ih smaller, Nat.div_add_mod']

theorem lowDigits_ofDigitsBE {base : Nat} {digits : List Nat}
    (small : ∀ digit ∈ digits, digit < base) :
    lowDigits base digits.length (ofDigitsBE base digits) = digits := by
  induction digits using List.reverseRecOn with
  | nil => rfl
  | append_singleton digits last ih =>
      have lastSmall := small last (by simp)
      have quotient : (ofDigitsBE base digits * base + last) / base = ofDigitsBE base digits := by
        rw [Nat.mul_comm, Nat.mul_add_div (by omega), Nat.div_eq_of_lt lastSmall, Nat.add_zero]
      have remainder : (ofDigitsBE base digits * base + last) % base = last := by
        rw [Nat.mul_add_mod', Nat.mod_eq_of_lt lastSmall]
      rw [ofDigitsBE_concat, List.length_append, List.length_singleton, lowDigits, quotient,
        remainder, ih fun digit member => small digit (List.mem_append_left _ member)]

theorem lowDigits_eq_map (base width number : Nat) :
    lowDigits base width number =
      (List.range width).map fun index => number / base ^ (width - 1 - index) % base := by
  induction width generalizing number with
  | zero => rfl
  | succ width ih =>
      rw [lowDigits, ih, List.range_succ, List.map_append, List.map_singleton]
      congr 1
      · apply List.map_congr_left
        intro index member
        have inside := List.mem_range.mp member
        have places : (width - 1 - index).succ = width + 1 - 1 - index := by omega
        rw [Nat.div_div_eq_div_mul, ← Nat.pow_succ', places]
      · simp

end Foundation

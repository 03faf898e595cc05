import Mathlib
import ChaosLab.Foundation.Radix

/-! Digits that are written in one base and read in a larger one, and when a
reader of bounded width still gets the number that was written. -/

set_option autoImplicit false

namespace Foundation

variable (base larger : Nat)

/-- How much more the digits denote in the larger base. -/
def excess : List Nat → Nat
  | [] => 0
  | digit :: digits => digit * (larger ^ digits.length - base ^ digits.length) + excess digits

/-- The most that so many digits of the smaller base denote more. -/
def maxExcess : Nat → Nat
  | 0 => 0
  | width + 1 => (base - 1) * (larger ^ width - base ^ width) + maxExcess width

/-- Some digits of this width bring the sum to a multiple of the modulus, as far
as their size can tell: a branch that ends below the next multiple is cut. -/
def mayVanish (modulus : Nat) : Nat → Nat → Bool
  | 0, sum => sum = 0
  | width + 1, sum =>
      (sum = 0 || modulus ≤ sum + maxExcess base larger (width + 1)) &&
        (List.range base).any fun digit =>
          mayVanish modulus width ((sum + digit * (larger ^ width - base ^ width)) % modulus)

variable {base larger}

theorem ofDigitsBE_larger (le : base ≤ larger) (digits : List Nat) :
    ofDigitsBE larger digits = ofDigitsBE base digits + excess base larger digits := by
  induction digits with
  | nil => rfl
  | cons digit digits ih =>
      have power := Nat.pow_le_pow_left le digits.length
      rw [ofDigitsBE_cons, ofDigitsBE_cons, ih, excess, Nat.mul_sub]
      have scaled := Nat.mul_le_mul_left digit power
      omega

theorem excess_le_maxExcess {digits : List Nat} (small : ∀ digit ∈ digits, digit < base) :
    excess base larger digits ≤ maxExcess base larger digits.length := by
  induction digits with
  | nil => exact le_rfl
  | cons digit digits ih =>
      have here := Nat.le_sub_one_of_lt (small digit (.head _))
      exact Nat.add_le_add (Nat.mul_le_mul_right _ here)
        (ih fun other member => small other (.tail _ member))

/-- The cut branches hold no digits that reach a multiple. -/
theorem mayVanish_of_dvd {modulus : Nat} {digits : List Nat}
    (small : ∀ digit ∈ digits, digit < base) {sum : Nat} (reduced : sum < modulus)
    (vanishes : modulus ∣ sum + excess base larger digits) :
    mayVanish base larger modulus digits.length sum = true := by
  induction digits generalizing sum with
  | nil =>
      have zero := Nat.eq_zero_of_dvd_of_lt vanishes reduced
      exact decide_eq_true zero
  | cons digit digits ih =>
      have bound : excess base larger (digit :: digits) ≤ _ := excess_le_maxExcess small
      rw [List.length_cons, mayVanish, Bool.and_eq_true, List.any_eq_true]
      constructor
      · by_cases zero : sum = 0
        · simp [zero]
        · have reached := Nat.le_of_dvd (by omega) vanishes
          simp only [Bool.or_eq_true, decide_eq_true_eq]
          exact .inr (reached.trans (Nat.add_le_add_left bound sum))
      · refine ⟨digit, List.mem_range.mpr (small digit (.head _)), ih ?_ ?_ ?_⟩
        · exact fun other member => small other (.tail _ member)
        · exact Nat.mod_lt _ (by omega)
        · have same := (Nat.mod_modEq (sum + digit * (larger ^ digits.length - base ^ digits.length))
            modulus).add_right (excess base larger digits)
          rw [excess, ← Nat.add_assoc] at vanishes
          exact (Nat.modEq_zero_iff_dvd.mp (same.trans (Nat.modEq_zero_iff_dvd.mpr vanishes)))

/-- No digits of this width or less but those of a number below the base differ
by a multiple of the modulus. -/
def OnlyUnits (base larger modulus width : Nat) : Prop :=
  ∀ position < width, 0 < position → ∀ digit < base, 0 < digit →
    mayVanish base larger modulus position
      (digit * (larger ^ position - base ^ position) % modulus) = false

instance (modulus width : Nat) : Decidable (OnlyUnits base larger modulus width) :=
  inferInstanceAs (Decidable (∀ _ < _, _ → ∀ _ < _, _ → _))

theorem excess_mod (modulus digit : Nat) (digits : List Nat) :
    digit * (larger ^ digits.length - base ^ digits.length) % modulus + excess base larger digits ≡
      excess base larger (digit :: digits) [MOD modulus] :=
  (Nat.mod_modEq _ modulus).add_right _

theorem OnlyUnits.lt_of_dvd {modulus width : Nat} (only : OnlyUnits base larger modulus width)
    (positive : 0 < base) (room : 0 < modulus) {digits : List Nat} (short : digits.length ≤ width)
    (small : ∀ digit ∈ digits, digit < base) (vanishes : modulus ∣ excess base larger digits) :
    ofDigitsBE larger digits < base := by
  induction digits with
  | nil => exact positive
  | cons digit digits ih =>
      have here := small digit (.head _)
      have others : ∀ other ∈ digits, other < base :=
        fun other member => small other (.tail _ member)
      rw [List.length_cons] at short
      rw [ofDigitsBE_cons]
      by_cases last : digits = []
      · simpa [last] using here
      · by_cases zero : digit = 0
        · rw [zero, excess, Nat.zero_mul, Nat.zero_add] at vanishes
          rw [zero, Nat.zero_mul, Nat.zero_add]
          exact ih (by omega) others vanishes
        · have never := only digits.length (by omega) (List.length_pos_iff.mpr last) digit here
            (Nat.pos_of_ne_zero zero)
          have same : _ + excess base larger digits ≡ _ [MOD modulus] :=
            excess_mod modulus digit digits
          have found := mayVanish_of_dvd others (Nat.mod_lt _ room)
            (Nat.modEq_zero_iff_dvd.mp (same.trans (Nat.modEq_zero_iff_dvd.mpr vanishes)))
          rw [never] at found
          cases found

/-- The last digits, up to a width, and the digits before them. -/
theorem exists_last {α : Type} (width : Nat) (digits : List α) :
    ∃ high low, digits = high ++ low ∧ low.length ≤ width ∧ (high = [] ∨ low.length = width) := by
  refine ⟨digits.take (digits.length - width), digits.drop (digits.length - width),
    (List.take_append_drop _ _).symm, ?_, ?_⟩
  · rw [List.length_drop]
    omega
  · by_cases fits : digits.length ≤ width
    · left
      rw [Nat.sub_eq_zero_of_le fits, List.take_zero]
    · right
      rw [List.length_drop]
      omega

/-- A reader that keeps `width` digits gets no number right that needs more than
one digit. -/
theorem OnlyUnits.lt_of_misread {width : Nat} (only : OnlyUnits base larger (base ^ width) width)
    (positive : 0 < base) (le : base ≤ larger) {digits : List Nat}
    (small : ∀ digit ∈ digits, digit < base)
    (read : ofDigitsBE larger digits % larger ^ width = ofDigitsBE base digits) :
    ofDigitsBE base digits < base := by
  obtain ⟨high, low, rfl, short, cut⟩ := exists_last width digits
  have smallLow : ∀ digit ∈ low, digit < base :=
    fun digit member => small digit (List.mem_append_right _ member)
  have bound := ofDigitsBE_lt fun digit member => (smallLow digit member).trans_le le
  have kept : ofDigitsBE larger (high ++ low) % larger ^ width = ofDigitsBE larger low := by
    cases cut with
    | inl none =>
        rw [none, List.nil_append]
        have widened := Nat.pow_le_pow_right (positive.trans_le le) short
        exact Nat.mod_eq_of_lt (bound.trans_le widened)
    | inr full =>
        rw [full] at bound
        rw [ofDigitsBE_append, full, Nat.add_comm, Nat.add_mul_mod_self_right,
          Nat.mod_eq_of_lt bound]
  rw [kept] at read
  have vanishes : base ^ width ∣ excess base larger low := by
    have written := read.symm.trans (ofDigitsBE_larger le low)
    rw [ofDigitsBE_append, Nat.add_comm, Nat.add_left_cancel_iff] at written
    rw [← written]
    cases cut with
    | inl none => simp [none]
    | inr full => exact full ▸ Nat.dvd_mul_left _ _
  rw [← read]
  exact only.lt_of_dvd positive (Nat.pow_pos positive) short smallLow vanishes

end Foundation

import ChaosLab.Bytes

/-! Decimal text is digits only, determines its number, and is read back by
`stoull`. The texts `stoull` accepts are characterized independently of how it
scans them. -/

set_option autoImplicit false

namespace ChaosLab

open Foundation

@[simp] theorem isdigit_ofNat {digit : Nat} (small : digit < 10) :
    isdigit (UInt8.ofNat (0x30 + digit)) = true := by
  interval_cases digit <;> rfl

@[simp] theorem digitValue_ofNat {digit : Nat} (small : digit < 10) :
    digitValue (UInt8.ofNat (0x30 + digit)) = digit := by
  interval_cases digit <;> rfl

theorem isdigit_of_mem_decimal {number : Nat} {byte : UInt8}
    (member : byte ∈ decimal number) : isdigit byte = true := by
  unfold decimal at member
  split at member
  · rw [List.mem_singleton.mp member]
    rfl
  · obtain ⟨digit, inside, rfl⟩ := List.mem_map.mp member
    exact isdigit_ofNat (Nat.digits_lt_base (by decide) (List.mem_reverse.mp inside))

theorem decimal_ne_nil (number : Nat) : decimal number ≠ [] := by
  unfold decimal
  split
  · simp
  · rename_i nonzero
    simpa [Nat.digits_eq_nil_iff_eq_zero] using nonzero

theorem length_toString_le (value : UInt64) : (toString value).length ≤ 20 := by
  have small : value.toNat < 10 ^ 20 := value.toNat_lt.trans (by decide)
  unfold toString decimal
  split
  · simp
  · rw [List.length_map, List.length_reverse]
    exact (Nat.digits_length_le_iff (by decide) _).mpr small

/-- Only the number zero is written with a zero in front. -/
theorem decimal_eq_of_head? {number : Nat} (lead : (decimal number).head? = some 0x30) :
    decimal number = [0x30] := by
  unfold decimal at lead ⊢
  by_cases zero : number = 0
  · rw [if_pos zero]
  · have nonempty : Nat.digits 10 number ≠ [] := Nat.digits_ne_nil_iff_ne_zero.mpr zero
    rw [if_neg zero, List.head?_map, List.head?_reverse,
      List.getLast?_eq_some_getLast nonempty] at lead
    have last := congrArg digitValue (Option.some.inj lead)
    rw [digitValue_ofNat (Nat.digits_lt_base (by decide) (List.getLast_mem nonempty))] at last
    exact absurd last (Nat.getLast_digit_ne_zero 10 zero)

theorem decimalValue_decimal (number : Nat) : decimalValue (decimal number) = number := by
  unfold decimal decimalValue
  split
  · rename_i zero
    subst zero
    rfl
  · have values : ((Nat.digits 10 number).reverse.map
        fun digit => UInt8.ofNat (0x30 + digit)).map digitValue =
          (Nat.digits 10 number).reverse := by
      rw [List.map_map]
      refine (List.map_congr_left fun digit member => ?_).trans (List.map_id _)
      exact digitValue_ofNat (Nat.digits_lt_base (by decide) (List.mem_reverse.mp member))
    rw [values, ofDigitsBE_reverse_digits]

theorem toString_injective : Function.Injective toString := by
  intro left right same
  have numbers := congrArg decimalValue same
  simp only [toString, decimalValue_decimal] at numbers
  exact UInt64.toNat_inj.mp numbers

theorem notMem_toString {byte : UInt8} (nondigit : isdigit byte = false) (value : UInt64) :
    byte ∉ toString value := by
  intro member
  rw [isdigit_of_mem_decimal member] at nondigit
  cases nondigit

theorem isspace_eq_false_of_isdigit {byte : UInt8} (digit : isdigit byte = true) :
    isspace byte = false := by
  simp only [isdigit, Bool.and_eq_true, decide_eq_true_eq, UInt8.le_iff_toNat_le] at digit
  have low : (0x30 : UInt8).toNat = 48 := rfl
  have blank : byte ≠ 0x20 := by rintro rfl; simp at digit
  have above : ¬ byte ≤ 0x0d := by
    rw [UInt8.le_iff_toNat_le]
    have high : (0x0d : UInt8).toNat = 13 := rfl
    omega
  simp [isspace, blank, above]

theorem takeSign_of_isdigit {byte : UInt8} (digit : isdigit byte = true) (rest : Bytes) :
    takeSign (byte :: rest) = (false, byte :: rest) := by
  have minus : byte ≠ 0x2d := by rintro rfl; cases digit
  have plus : byte ≠ 0x2b := by rintro rfl; cases digit
  simp [takeSign, minus, plus]

@[simp] theorem stoull_toString (value : UInt64) : stoull (toString value) = .ok value := by
  have digits : ∀ byte ∈ decimal value.toNat, isdigit byte = true :=
    fun _ member => isdigit_of_mem_decimal member
  have whole : (decimal value.toNat).takeWhile isdigit = decimal value.toNat :=
    List.takeWhile_eq_self_iff.mpr digits
  have signless : takeSign ((decimal value.toNat).dropWhile isspace) =
      (false, decimal value.toNat) := by
    cases text : decimal value.toNat with
    | nil => exact absurd text (decimal_ne_nil _)
    | cons byte rest =>
        have digit : isdigit byte = true := digits byte (by simp [text])
        rw [List.dropWhile_cons_of_neg (by simp [isspace_eq_false_of_isdigit digit]),
          takeSign_of_isdigit digit]
  have fits : ¬ 2 ^ 64 ≤ value.toNat := Nat.not_le.mpr value.toNat_lt
  simp only [stoull, toString, signless, whole, decimalValue_decimal]
  rw [if_neg (decimal_ne_nil _), if_neg fits]
  simp

/-- Text that starts, after white space and at most one sign, with decimal
digits whose maximal run denotes a number below `2 ^ 64`. -/
def NumericText (text : Bytes) : Prop :=
  ∃ blanks sign digits rest : Bytes,
    text = blanks ++ sign ++ digits ++ rest ∧
    (∀ byte ∈ blanks, isspace byte = true) ∧
    (sign = [] ∨ sign = ascii "+" ∨ sign = ascii "-") ∧
    digits ≠ [] ∧ (∀ byte ∈ digits, isdigit byte = true) ∧
    (∀ byte, rest.head? = some byte → isdigit byte = false) ∧
    decimalValue digits < 2 ^ 64

theorem takeSign_spec (text : Bytes) :
    ∃ sign, text = sign ++ (takeSign text).2 ∧
      (sign = [] ∨ sign = ascii "+" ∨ sign = ascii "-") := by
  cases text with
  | nil => exact ⟨[], rfl, .inl rfl⟩
  | cons byte rest =>
      by_cases minus : byte = 0x2d
      · exact ⟨ascii "-", by simp only [takeSign, minus, if_true]; rfl, .inr (.inr rfl)⟩
      · by_cases plus : byte = 0x2b
        · exact ⟨ascii "+", by simp only [takeSign, plus]; rfl, .inr (.inl rfl)⟩
        · exact ⟨[], by simp [takeSign, minus, plus], .inl rfl⟩

theorem takeSign_append_digits {sign digits : Bytes} (rest : Bytes)
    (signed : sign = [] ∨ sign = ascii "+" ∨ sign = ascii "-")
    (nonempty : digits ≠ []) (numeric : ∀ byte ∈ digits, isdigit byte = true) :
    (takeSign (sign ++ digits ++ rest)).2 = digits ++ rest := by
  rcases signed with rfl | rfl | rfl
  · cases digits with
    | nil => exact absurd rfl nonempty
    | cons byte digits => exact congrArg Prod.snd (takeSign_of_isdigit (numeric byte (.head _)) _)
  · rfl
  · rfl

theorem dropWhile_isspace_append {blanks sign digits : Bytes} (rest : Bytes)
    (blank : ∀ byte ∈ blanks, isspace byte = true)
    (signed : sign = [] ∨ sign = ascii "+" ∨ sign = ascii "-")
    (nonempty : digits ≠ []) (numeric : ∀ byte ∈ digits, isdigit byte = true) :
    (blanks ++ sign ++ digits ++ rest).dropWhile isspace = sign ++ digits ++ rest := by
  rw [List.append_assoc, List.append_assoc, List.dropWhile_append_of_pos blank,
    ← List.append_assoc]
  rcases signed with rfl | rfl | rfl
  · cases digits with
    | nil => exact absurd rfl nonempty
    | cons byte digits =>
        exact List.dropWhile_cons_of_neg
          (by simp [isspace_eq_false_of_isdigit (numeric byte (.head _))])
  · rfl
  · rfl

theorem takeWhile_isdigit_append {digits rest : Bytes}
    (numeric : ∀ byte ∈ digits, isdigit byte = true)
    (stops : ∀ byte, rest.head? = some byte → isdigit byte = false) :
    (digits ++ rest).takeWhile isdigit = digits := by
  rw [List.takeWhile_append_of_pos numeric]
  cases rest with
  | nil => simp
  | cons byte rest => simp [stops byte rfl]

/-- `std::stoull` returns normally exactly on numeric text. -/
theorem stoull_isOk_iff {text : Bytes} :
    (∃ value, stoull text = .ok value) ↔ NumericText text := by
  constructor
  · intro accepted
    obtain ⟨value, parsed⟩ := accepted
    unfold stoull at parsed
    obtain ⟨sign, decomposed, signed⟩ := takeSign_spec (text.dropWhile isspace)
    generalize takeSign (text.dropWhile isspace) = signSplit at decomposed parsed
    obtain ⟨negative, unsigned⟩ := signSplit
    simp only at decomposed parsed
    split at parsed
    · cases parsed
    · rename_i nonempty
      split at parsed
      · cases parsed
      · rename_i bounded
        refine ⟨text.takeWhile isspace, sign, unsigned.takeWhile isdigit,
          unsigned.dropWhile isdigit, ?_, ?_, signed, nonempty, ?_, ?_, by omega⟩
        · rw [List.append_assoc, List.takeWhile_append_dropWhile, List.append_assoc,
            ← decomposed, List.takeWhile_append_dropWhile]
        · exact fun byte member => List.mem_takeWhile_imp member
        · exact fun byte member => List.mem_takeWhile_imp member
        · intro byte first
          have stopped := List.head?_dropWhile_not isdigit unsigned
          rw [first] at stopped
          simpa using stopped
  · rintro ⟨blanks, sign, digits, rest, rfl, blank, signed, nonempty, numeric, stops, bounded⟩
    unfold stoull
    rw [dropWhile_isspace_append rest blank signed nonempty numeric]
    have unsigned := takeSign_append_digits rest signed nonempty numeric
    generalize takeSign (sign ++ digits ++ rest) = split at unsigned
    obtain ⟨negative, text⟩ := split
    obtain rfl : text = digits ++ rest := unsigned
    simp only [takeWhile_isdigit_append numeric stops]
    rw [if_neg nonempty, if_neg (by omega)]
    exact ⟨_, rfl⟩

end ChaosLab

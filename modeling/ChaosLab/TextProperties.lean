import ChaosLab.BytesProperties
import ChaosLab.Text
import ChaosLab.Foundation.Delimited

/-! `split` is list splitting and undone by `join`, and hexadecimal text is a positional
number modulo `2 ^ 64`. -/

set_option autoImplicit false

namespace ChaosLab

open Foundation

theorem splitFrom_eq_modifyHead (delim : UInt8) (segment text : Bytes) :
    splitFrom delim segment text = (text.splitOn delim).modifyHead (segment ++ ·) := by
  induction text generalizing segment with
  | nil => simp [splitFrom]
  | cons byte rest ih =>
      rw [splitFrom, List.splitOn_cons_eq_if_modifyHead]
      by_cases same : byte = delim
      · simp [same, ih]
        cases rest.splitOn delim <;> simp
      · have apart : (byte == delim) = false := by simpa using same
        simp only [same, apart, ih]
        cases rest.splitOn delim <;> simp

theorem split_eq_splitOn (text : Bytes) (delim : UInt8) :
    split text delim = text.splitOn delim := by
  rw [split, splitFrom_eq_modifyHead]
  cases text.splitOn delim <;> simp

theorem notMem_of_mem_split {text part : Bytes} {delim : UInt8}
    (member : part ∈ split text delim) : delim ∉ part := by
  rw [split_eq_splitOn] at member
  exact not_mem_of_mem_splitOn member

theorem sublist_of_mem_split {text part : Bytes} {delim : UInt8}
    (member : part ∈ split text delim) : part.Sublist text := by
  rw [split_eq_splitOn] at member
  exact sublist_of_mem_splitOn member

theorem split_of_notMem {text : Bytes} {delim : UInt8} (absent : delim ∉ text) :
    split text delim = [text] := by
  rw [split_eq_splitOn, List.splitOn_eq_singleton absent]

theorem split_append (first rest : Bytes) (delim : UInt8) :
    split (first ++ delim :: rest) delim = split first delim ++ split rest delim := by
  rw [split_eq_splitOn, split_eq_splitOn, split_eq_splitOn, List.splitOn_append_cons_self]

theorem split_append_cons {first : Bytes} {delim : UInt8} (absent : delim ∉ first)
    (rest : Bytes) : split (first ++ delim :: rest) delim = first :: split rest delim := by
  rw [split_append, split_of_notMem absent, List.singleton_append]

theorem length_split (text : Bytes) (delim : UInt8) :
    (split text delim).length = text.count delim + 1 := by
  rw [split_eq_splitOn, length_splitOn]

/-- What `split` returns: the only parts without the delimiter that it joins to the text. -/
theorem split_eq_iff {text : Bytes} {delim : UInt8} {parts : List Bytes} :
    split text delim = parts ↔
      parts ≠ [] ∧ (∀ part ∈ parts, delim ∉ part) ∧ [delim].intercalate parts = text := by
  rw [split_eq_splitOn, splitOn_eq_iff]

theorem intercalate_split (text : Bytes) (delim : UInt8) :
    [delim].intercalate (split text delim) = text :=
  (split_eq_iff.mp rfl).2.2

theorem substr_none {text : Bytes} {pos : Nat} (inside : pos ≤ text.length) :
    substr text pos none = .ok (text.drop pos) := by
  rw [substr, if_neg (Nat.not_lt.mpr inside)]

theorem substr_some {text : Bytes} {pos : Nat} (inside : pos ≤ text.length) (count : Nat) :
    substr text pos (some count) = .ok ((text.drop pos).take count) := by
  rw [substr, if_neg (Nat.not_lt.mpr inside)]

/-- From `start ≤ i` inside the text, the loop cuts the current part out of the
text and goes on as `splitFrom` does. -/
theorem splitLoop_eq {text : Bytes} {delim : UInt8} {start i : Nat} (order : start ≤ i)
    (inside : i ≤ text.length) (out : List Bytes) :
    splitLoop text delim start i out =
      .ok (out ++ splitFrom delim ((text.drop start).take (i - start)) (text.drop i)) := by
  fun_induction splitLoop text delim start i out with
  | case1 start i out bound found thrown failed =>
      rw [substr_some (by omega)] at failed
      cases failed
  | case2 start i out bound found part cut ih =>
      rw [substr_some (by omega), Except.ok.injEq] at cut
      rw [ih (Nat.le_refl _) bound, List.drop_eq_getElem_cons bound, splitFrom, if_pos found, cut]
      simp
  | case3 start i out bound other ih =>
      have longer : (text.drop start).take (i + 1 - start) =
          (text.drop start).take (i - start) ++ [text[i]] := by
        rw [Nat.succ_sub order, List.take_succ_eq_append_getElem (by simp; omega)]
        simp [Nat.add_sub_cancel' order]
      rw [ih (by omega) bound, longer, List.drop_eq_getElem_cons bound, splitFrom, if_neg other]
  | case4 start i out done thrown failed =>
      rw [substr_none (by omega)] at failed
      cases failed
  | case5 start i out done part cut =>
      rw [substr_none (by omega), Except.ok.injEq] at cut
      have last : i = text.length := by omega
      rw [last, List.drop_length, splitFrom, ← cut, List.take_of_length_le (by simp)]

/-- `split`'s `substr` never throws, and its loop returns the parts. -/
theorem splitLoop_eq_split (text : Bytes) (delim : UInt8) :
    splitLoop text delim 0 0 [] = .ok (split text delim) := by
  rw [splitLoop_eq (Nat.le_refl 0) (Nat.zero_le _)]
  rfl

theorem joinFrom_succ (delim out : Bytes) (i : Nat) (parts : List Bytes) :
    joinFrom delim out (i + 1) parts = out ++ parts.flatMap (delim ++ ·) := by
  induction parts generalizing out i with
  | nil => simp [joinFrom]
  | cons part parts ih => simp [joinFrom, ih]

theorem join_eq_intercalate (parts : List Bytes) (delim : Bytes) :
    join parts delim = delim.intercalate parts := by
  cases parts with
  | nil => rfl
  | cons part parts => simp [join, joinFrom, joinFrom_succ, intercalate_cons]

theorem split_join_inverse (delim : UInt8) :
    (∀ text : Bytes, splitLoop text delim 0 0 [] = .ok (split text delim) ∧
      join (split text delim) [delim] = text ∧
      (split text delim).length = text.count delim + 1 ∧
      ∀ part ∈ split text delim, delim ∉ part) ∧
    ∀ parts : List Bytes, parts ≠ [] → (∀ part ∈ parts, delim ∉ part) →
      split (join parts [delim]) delim = parts := by
  constructor
  · intro text
    refine ⟨splitLoop_eq_split text delim, ?_, length_split text delim,
      fun part member => notMem_of_mem_split member⟩
    rw [join_eq_intercalate, intercalate_split]
  · intro parts nonempty clean
    exact split_eq_iff.mpr ⟨nonempty, clean, (join_eq_intercalate parts [delim]).symm⟩

theorem split_join_inverse_empty_parts :
    split (join [[], ascii "a", [], []] [Byte.comma]) Byte.comma = [[], ascii "a", [], []] :=
  (split_join_inverse Byte.comma).2 _ (by decide) (by decide)

section Hexadecimal

theorem shiftLeft_four_or {start digit : Nat} (small : digit < 16) :
    UInt64.ofNat start <<< 4 ||| UInt64.ofNat digit = UInt64.ofNat (start * 16 + digit) := by
  apply UInt64.toNat_inj.mp
  have smallMod : digit % 2 ^ 64 = digit := Nat.mod_eq_of_lt (by omega)
  have fourMod : (4 : UInt64).toNat % 64 = 4 := rfl
  rw [UInt64.toNat_or, UInt64.toNat_shiftLeft, UInt64.toNat_ofNat', UInt64.toNat_ofNat',
    UInt64.toNat_ofNat', smallMod, fourMod]
  have multiple : (start % 2 ^ 64) <<< 4 % 2 ^ 64 = (start % 2 ^ 60) <<< 4 := by
    rw [Nat.shiftLeft_eq, Nat.shiftLeft_eq]
    omega
  rw [multiple, ← Nat.shiftLeft_add_eq_or_of_lt (by omega), Nat.shiftLeft_eq]
  omega

theorem nibble_lt {byte : UInt8} {digit : Nat} (read : nibble byte = some digit) :
    digit < 16 := by
  unfold nibble at read
  simp only [UInt8.le_iff_toNat_le] at read
  have bounds : (0x39 : UInt8).toNat = 57 ∧ (0x66 : UInt8).toNat = 102 ∧
      (0x46 : UInt8).toNat = 70 := ⟨rfl, rfl, rfl⟩
  split at read
  · cases read; omega
  · split at read
    · cases read; omega
    · split at read
      · cases read; omega
      · cases read

/-- The number hexadecimal digits denote; a byte that is no digit counts as zero. -/
def hexValue (text : Bytes) : Nat := ofDigitsBE 16 (text.map fun byte => (nibble byte).getD 0)

theorem fromHexFrom_eq_some (start : Nat) {text : Bytes}
    (digits : ∀ byte ∈ text, (nibble byte).isSome) :
    fromHexFrom (UInt64.ofNat start) text = some (UInt64.ofNat
      ((text.map fun byte => (nibble byte).getD 0).foldl
        (fun value digit => value * 16 + digit) start)) := by
  induction text generalizing start with
  | nil => rfl
  | cons byte rest ih =>
      obtain ⟨digit, read⟩ := Option.isSome_iff_exists.mp (digits byte (.head _))
      simp only [fromHexFrom, read, List.map_cons, List.foldl_cons, Option.getD_some]
      rw [shiftLeft_four_or (nibble_lt read)]
      exact ih _ fun other member => digits other (.tail _ member)

/-- Hexadecimal text is read as the number it denotes, modulo `2 ^ 64`. -/
theorem fromHex_eq_some {text : Bytes} (nonempty : text ≠ [])
    (digits : ∀ byte ∈ text, (nibble byte).isSome) :
    fromHex text = some (UInt64.ofNat (hexValue text)) := by
  rw [fromHex, if_neg nonempty]
  exact fromHexFrom_eq_some 0 digits

theorem digits_of_fromHexFrom {start value : UInt64} {text : Bytes}
    (read : fromHexFrom start text = some value) : ∀ byte ∈ text, (nibble byte).isSome := by
  induction text generalizing start with
  | nil => simp
  | cons byte rest ih =>
      unfold fromHexFrom at read
      cases digit : nibble byte with
      | none => simp [digit] at read
      | some found =>
          simp only [digit] at read
          simpa [digit] using ih read

/-- Hexadecimal digits, at least one. -/
def HexText (text : Bytes) : Prop := text ≠ [] ∧ ∀ byte ∈ text, (nibble byte).isSome

theorem fromHex_eq_some_iff {text : Bytes} {value : UInt64} :
    fromHex text = some value ↔ HexText text ∧ value = UInt64.ofNat (hexValue text) := by
  constructor
  · intro read
    have nonempty : text ≠ [] := by
      rintro rfl
      simp [fromHex] at read
    have loop := read
    rw [fromHex, if_neg nonempty] at loop
    have hex : HexText text := ⟨nonempty, digits_of_fromHexFrom loop⟩
    rw [fromHex_eq_some nonempty hex.2, Option.some.injEq] at read
    exact ⟨hex, read.symm⟩
  · rintro ⟨⟨nonempty, digits⟩, rfl⟩
    exact fromHex_eq_some nonempty digits

theorem HexText.notMem {text : Bytes} (hex : HexText text) {byte : UInt8}
    (undigit : nibble byte = none) : byte ∉ text := by
  intro member
  have digit := hex.2 byte member
  simp [undigit] at digit

def hexByte (digit : Nat) : UInt8 := hexDigits.getD digit 0

theorem nibble_hexByte {digit : Nat} (small : digit < 16) :
    nibble (hexByte digit) = some digit := by
  interval_cases digit <;> decide

theorem toHexFrom_eq (positions : Nat) (value : UInt64) (written : Bytes) :
    toHexFrom positions value written =
      (lowDigits 16 positions value.toNat).map hexByte ++ written := by
  induction positions generalizing value written with
  | zero => rfl
  | succ positions ih =>
      have low : (value &&& 0x0f).toNat = value.toNat % 16 := by
        rw [UInt64.toNat_and]
        exact Nat.and_two_pow_sub_one_eq_mod value.toNat 4
      have high : (value >>> 4).toNat = value.toNat / 16 := by
        rw [UInt64.toNat_shiftRight]
        exact Nat.shiftRight_eq_div_pow value.toNat 4
      rw [toHexFrom, ih, low, high, lowDigits]
      simp [hexByte]

theorem toHex_eq (value : UInt64) : toHex value = (lowDigits 16 16 value.toNat).map hexByte := by
  rw [toHex, toHexFrom_eq, List.append_nil]

theorem length_toHex (value : UInt64) : (toHex value).length = 16 := by
  rw [toHex_eq, List.length_map, length_lowDigits]

theorem nibble_of_mem_toHex {value : UInt64} {byte : UInt8} (member : byte ∈ toHex value) :
    (nibble byte).isSome := by
  rw [toHex_eq] at member
  obtain ⟨digit, inside, rfl⟩ := List.mem_map.mp member
  simp [nibble_hexByte (lowDigits_lt (by decide) inside)]

theorem hexValue_toHex (value : UInt64) : hexValue (toHex value) = value.toNat := by
  have digits : (toHex value).map (fun byte => (nibble byte).getD 0) =
      lowDigits 16 16 value.toNat := by
    rw [toHex_eq, List.map_map]
    refine (List.map_congr_left fun digit member => ?_).trans (List.map_id _)
    simp [nibble_hexByte (lowDigits_lt (by decide) member)]
  rw [hexValue, digits, ofDigitsBE_lowDigits]
  exact value.toNat_lt

theorem hexText_toHex (value : UInt64) : HexText (toHex value) := by
  constructor
  · intro empty
    have length := length_toHex value
    simp [empty] at length
  · intro byte member
    exact nibble_of_mem_toHex member

@[simp] theorem fromHex_toHex (value : UInt64) : fromHex (toHex value) = some value := by
  rw [fromHex_eq_some_iff, hexValue_toHex, UInt64.ofNat_toNat]
  exact ⟨hexText_toHex value, rfl⟩

/-- The digits of `to_hex`. -/
structure CanonicalHex (text : Bytes) : Prop where
  width : text.length = 16
  lower : ∀ byte ∈ text, byte ∈ hexDigits

theorem canonicalHex_toHex (value : UInt64) : CanonicalHex (toHex value) where
  width := length_toHex value
  lower := by
    intro byte member
    rw [toHex_eq] at member
    obtain ⟨digit, inside, rfl⟩ := List.mem_map.mp member
    have small := lowDigits_lt (by decide) inside
    interval_cases digit <;> decide

theorem hexByte_nibble {byte : UInt8} (digit : byte ∈ hexDigits) :
    hexByte ((nibble byte).getD 0) = byte ∧ (nibble byte).getD 0 < 16 := by
  revert byte
  decide +kernel

/-- A text is written as its value again if it has the digits of `to_hex`, and only then. -/
theorem toHex_eq_self_iff {text : Bytes} {value : UInt64} (read : fromHex text = some value) :
    toHex value = text ↔ CanonicalHex text := by
  constructor
  · intro same
    rw [← same]
    exact canonicalHex_toHex value
  · intro canonical
    obtain ⟨-, denoted⟩ := fromHex_eq_some_iff.mp read
    have small : ∀ digit ∈ text.map (fun byte => (nibble byte).getD 0), digit < 16 := by
      rw [List.forall_mem_map]
      exact fun byte member => (hexByte_nibble (canonical.lower byte member)).2
    have width : (text.map fun byte => (nibble byte).getD 0).length = 16 := by
      rw [List.length_map, canonical.width]
    have fits : hexValue text < 2 ^ 64 := by
      have bound := ofDigitsBE_lt small
      rwa [width] at bound
    have digits := lowDigits_ofDigitsBE small
    rw [width] at digits
    rw [denoted, toHex_eq, UInt64.toNat_ofNat_of_lt' fits, hexValue, digits, List.map_map]
    refine (List.map_congr_left fun byte member => ?_).trans (List.map_id _)
    exact (hexByte_nibble (canonical.lower byte member)).1

theorem notMem_toHex {byte : UInt8} (undigit : nibble byte = none) (value : UInt64) :
    byte ∉ toHex value :=
  (hexText_toHex value).notMem undigit

end Hexadecimal

end ChaosLab

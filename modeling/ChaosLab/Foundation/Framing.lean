import Mathlib.Data.List.Basic

/-! Items written one after another, and how much of them a cut of the text keeps. -/

set_option autoImplicit false

namespace Foundation

variable {Item Symbol : Type} {encode : Item → List Symbol}

/-- The items whose encodings lie wholly within the first `size` symbols of all of
them written in order. -/
def wholeWithin (encode : Item → List Symbol) : List Item → Nat → List Item
  | [], _ => []
  | item :: items, size =>
      if (encode item).length ≤ size then
        item :: wholeWithin encode items (size - (encode item).length)
      else []

theorem wholeWithin_eq_take (items : List Item) (size : Nat) :
    wholeWithin encode items size = items.take (wholeWithin encode items size).length := by
  induction items generalizing size with
  | nil => rfl
  | cons item items ih =>
      rw [wholeWithin]
      split
      · rw [List.length_cons, List.take_succ_cons, ← ih]
      · rfl

theorem wholeWithin_append (encode : Item → List Symbol) (first rest : List Item) (size : Nat) :
    wholeWithin encode (first ++ rest) ((first.flatMap encode).length + size) =
      first ++ wholeWithin encode rest size := by
  induction first with
  | nil => simp
  | cons item first ih =>
      have enough : (encode item).length ≤ ((item :: first).flatMap encode).length + size := by
        rw [List.flatMap_cons, List.length_append]
        omega
      have left : ((item :: first).flatMap encode).length + size - (encode item).length =
          (first.flatMap encode).length + size := by
        rw [List.flatMap_cons, List.length_append]
        omega
      rw [List.cons_append, wholeWithin, if_pos enough, left, ih, List.cons_append]

theorem wholeWithin_map {Source : Type} (encode : Item → List Symbol) (view : Source → Item)
    (sources : List Source) (size : Nat) :
    wholeWithin encode (sources.map view) size =
      (wholeWithin (fun source => encode (view source)) sources size).map view := by
  induction sources generalizing size with
  | nil => rfl
  | cons source sources ih =>
      rw [List.map_cons, wholeWithin, wholeWithin]
      split
      · rw [ih, List.map_cons]
      · rfl

/-- A cut of `first` and what follows falls within `first` or keeps all of it. -/
theorem cut_cases {text first rest : List Symbol} (cut : text <+: first ++ rest) :
    (text.length < first.length ∧ text <+: first) ∨
      ∃ tail, text = first ++ tail ∧ tail <+: rest := by
  by_cases within : text.length < first.length
  · have start : text <+: first :=
      List.prefix_of_prefix_length_le cut (List.prefix_append first rest) (Nat.le_of_lt within)
    exact .inl ⟨within, start⟩
  · have start : first <+: text :=
      List.prefix_of_prefix_length_le (List.prefix_append first rest) cut (Nat.le_of_not_lt within)
    obtain ⟨tail, rfl⟩ := start
    exact .inr ⟨tail, rfl, (List.prefix_append_right_inj first).mp cut⟩

/-- Where no item has an empty encoding, items left out show in the text. -/
theorem flatMap_eq_iff_of_prefix (nonempty : ∀ item, encode item ≠ []) {items more : List Item}
    (start : items <+: more) : items.flatMap encode = more.flatMap encode ↔ items = more := by
  obtain ⟨rest, rfl⟩ := start
  cases rest with
  | nil => simp
  | cons item rest => simp [nonempty]

end Foundation

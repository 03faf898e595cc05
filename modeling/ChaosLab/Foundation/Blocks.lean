import Mathlib.Data.List.Basic

/-! A list cut into blocks of one size, with what is left when no block is full any more. -/

set_option autoImplicit false

namespace Foundation

variable {Item : Type} {size : Nat}

def blocks (size : Nat) (items : List Item) : List (List Item) :=
  (List.range (items.length / size)).map fun index => (items.drop (index * size)).take size

def leftover (size : Nat) (items : List Item) : List Item :=
  items.drop (items.length / size * size)

theorem blocks_of_lt {items : List Item} (short : items.length < size) :
    blocks size items = [] := by
  rw [blocks, Nat.div_eq_of_lt short]
  rfl

theorem leftover_of_lt {items : List Item} (short : items.length < size) :
    leftover size items = items := by
  rw [leftover, Nat.div_eq_of_lt short, Nat.zero_mul, List.drop_zero]

theorem length_leftover (size : Nat) (items : List Item) :
    (leftover size items).length = items.length % size := by
  rw [leftover, List.length_drop, Nat.mod_eq_sub_div_mul]

/-- A prefix that ends with a block is cut on its own. -/
theorem blocks_append {whole : List Item} (positive : 0 < size)
    (even : size ∣ whole.length) (rest : List Item) :
    blocks size (whole ++ rest) = blocks size whole ++ blocks size rest := by
  obtain ⟨count, length_eq⟩ := even
  have early : whole.length / size = count := by
    rw [length_eq, Nat.mul_div_cancel_left _ positive]
  have total : (whole ++ rest).length / size = count + rest.length / size := by
    rw [List.length_append, length_eq, Nat.mul_add_div positive]
  rw [blocks, blocks, blocks, early, total, List.range_add, List.map_append, List.map_map]
  congr 1
  · apply List.map_congr_left
    intro index member
    have inside : index * size + size ≤ whole.length := by
      rw [length_eq, Nat.mul_comm size, ← Nat.succ_mul]
      exact Nat.mul_le_mul_right _ (List.mem_range.mp member)
    rw [List.drop_append_of_le_length (by omega), List.take_append_of_le_length
      (by rw [List.length_drop]; omega)]
  · apply List.map_congr_left
    intro index _
    rw [Function.comp_apply, Nat.add_mul, Nat.mul_comm count, ← length_eq, ← List.drop_drop,
      List.drop_left]

theorem leftover_append {whole : List Item} (positive : 0 < size)
    (even : size ∣ whole.length) (rest : List Item) :
    leftover size (whole ++ rest) = leftover size rest := by
  obtain ⟨count, length_eq⟩ := even
  have total : (whole ++ rest).length / size * size =
      whole.length + rest.length / size * size := by
    rw [List.length_append, length_eq, Nat.mul_add_div positive, Nat.add_mul, Nat.mul_comm count]
  rw [leftover, leftover, total, ← List.drop_drop, List.drop_left]

theorem blocks_eq_singleton {block : List Item} (positive : 0 < size)
    (full : block.length = size) : blocks size block = [block] := by
  rw [blocks, full, Nat.div_self positive, List.range_one, List.map_singleton, Nat.zero_mul,
    List.drop_zero, ← full, List.take_length]

theorem take_append_leftover (size : Nat) (items : List Item) :
    items.take (items.length / size * size) ++ leftover size items = items :=
  List.take_append_drop _ _

theorem dvd_length_take (size : Nat) (items : List Item) :
    size ∣ (items.take (items.length / size * size)).length := by
  rw [List.length_take_of_le (Nat.div_mul_le_self _ _)]
  exact Nat.dvd_mul_left _ _

/-- Cutting can stop anywhere and go on with what was left. -/
theorem blocks_leftover_append (positive : 0 < size) (items more : List Item) :
    blocks size (items ++ more) = blocks size items ++ blocks size (leftover size items ++ more) := by
  have even := dvd_length_take size items
  have idle : blocks size (leftover size items) = [] := by
    apply blocks_of_lt
    rw [length_leftover]
    exact Nat.mod_lt _ positive
  calc
    blocks size (items ++ more)
        = blocks size (items.take (items.length / size * size) ++
            (leftover size items ++ more)) := by
          rw [← List.append_assoc, take_append_leftover]
    _ = blocks size (items.take (items.length / size * size)) ++
          blocks size (leftover size items ++ more) := blocks_append positive even _
    _ = blocks size (items.take (items.length / size * size) ++ leftover size items) ++
          blocks size (leftover size items ++ more) := by
          rw [blocks_append positive even (leftover size items), idle, List.append_nil]
    _ = blocks size items ++ blocks size (leftover size items ++ more) := by
          rw [take_append_leftover]

theorem leftover_leftover_append (positive : 0 < size) (items more : List Item) :
    leftover size (leftover size items ++ more) = leftover size (items ++ more) := by
  rw [← leftover_append positive (dvd_length_take size items), ← List.append_assoc,
    take_append_leftover]

end Foundation

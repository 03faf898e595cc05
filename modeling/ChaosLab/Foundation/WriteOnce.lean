import Mathlib.Logic.Function.Basic
import Mathlib.Logic.Relation

/-! Tables of write-once cells: a cell is empty until it is written, and a
written cell keeps its value. -/

set_option autoImplicit false

namespace Foundation

variable {Key Value : Type} [DecidableEq Key]

inductive Write : (Key → Option Value) → (Key → Option Value) → Prop where
  | write {table : Key → Option Value} {key : Key} (empty : table key = none) (value : Value) :
      Write table (Function.update table key (some value))

theorem Write.keeps {before after : Key → Option Value} (write : Write before after) {key : Key}
    {value : Value} (written : before key = some value) : after key = some value := by
  cases write with
  | @write other empty stored =>
      have different : key ≠ other := by
        rintro rfl
        simp [empty] at written
      rw [Function.update_of_ne different]
      exact written

/-- The first value written to a cell is its value ever after. -/
theorem first_write_wins {before after : Key → Option Value}
    (writes : Relation.ReflTransGen Write before after) {key : Key} {value : Value}
    (written : before key = some value) : after key = some value := by
  induction writes with
  | refl => exact written
  | tail _ write ih => exact write.keeps ih

end Foundation

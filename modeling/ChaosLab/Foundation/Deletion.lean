import Mathlib.Data.List.Basic

/-! Greedy deletion: walk along a list and drop every removable item whose removal is
accepted. An index stays where it is after a removal, since the rest moves down. -/

set_option autoImplicit false

namespace Foundation

variable {Item : Type} {removable : Item → Bool} {accepts : List Item → Bool}

def eraseGreedily (removable : Item → Bool) (accepts : List Item → Bool) (index : Nat)
    (items : List Item) : List Item :=
  if inside : index < items.length then
    if removable items[index] && accepts (items.eraseIdx index) then
      eraseGreedily removable accepts index (items.eraseIdx index)
    else eraseGreedily removable accepts (index + 1) items
  else items
termination_by items.length - index
decreasing_by
  · rw [List.length_eraseIdx_of_lt inside]
    omega
  · omega

/-- Whatever holds at the start and survives every accepted removal of a removable item
holds of the result. -/
theorem eraseGreedily_induct {motive : List Item → Prop}
    (step : ∀ (items : List Item) (index : Nat) (inside : index < items.length),
      removable items[index] = true → accepts (items.eraseIdx index) = true →
        motive items → motive (items.eraseIdx index))
    (index : Nat) {items : List Item} (initial : motive items) :
    motive (eraseGreedily removable accepts index items) := by
  fun_induction eraseGreedily removable accepts index items with
  | case1 index items inside removes ih =>
      rw [Bool.and_eq_true] at removes
      exact ih (step items index inside removes.1 removes.2 initial)
  | case2 index items inside keeps ih => exact ih initial
  | case3 index items past => exact initial

theorem accepts_eraseGreedily (removable : Item → Bool) (accepts : List Item → Bool)
    (index : Nat) {items : List Item} (initial : accepts items = true) :
    accepts (eraseGreedily removable accepts index items) = true := by
  apply eraseGreedily_induct (motive := fun left => accepts left = true) _ index initial
  intro left position inside removes accepted still
  exact accepted

theorem eraseGreedily_sublist (index : Nat) (items : List Item) :
    (eraseGreedily removable accepts index items).Sublist items := by
  apply eraseGreedily_induct (motive := fun left => left.Sublist items) _ index
    (List.Sublist.refl items)
  intro left position inside removes accepted still
  exact (List.eraseIdx_sublist left position).trans still

theorem filter_eraseIdx {keep : Item → Bool} {items : List Item} {index : Nat}
    (inside : index < items.length) (dropped : keep items[index] = false) :
    (items.eraseIdx index).filter keep = items.filter keep := by
  calc
    (items.eraseIdx index).filter keep
        = (items.take index).filter keep ++ (items.drop (index + 1)).filter keep := by
          rw [List.eraseIdx_eq_take_drop_succ, List.filter_append]
    _ = (items.take index).filter keep ++ (items[index] :: items.drop (index + 1)).filter keep := by
          rw [List.filter_cons_of_neg (by simp [dropped])]
    _ = items.filter keep := by
          rw [← List.drop_eq_getElem_cons inside, ← List.filter_append, List.take_append_drop]

/-- Items that are not removable stay, in their order. -/
theorem filter_eraseGreedily {keep : Item → Bool}
    (kept : ∀ item, keep item = true → removable item = false) (index : Nat)
    (items : List Item) :
    (eraseGreedily removable accepts index items).filter keep = items.filter keep := by
  apply eraseGreedily_induct (motive := fun left => left.filter keep = items.filter keep) _ index rfl
  intro left position inside removes accepted still
  have dropped : keep left[position] = false := by
    cases keeps : keep left[position] with
    | false => rfl
    | true =>
        rw [kept _ keeps] at removes
        cases removes
  rw [filter_eraseIdx inside dropped, still]

theorem eraseIdx_eraseIdx_sublist (items : List Item) {earlier index : Nat}
    (before : earlier < index) :
    ((items.eraseIdx index).eraseIdx earlier).Sublist (items.eraseIdx earlier) := by
  induction items generalizing earlier index with
  | nil => exact .slnil
  | cons item items ih =>
      cases index with
      | zero => omega
      | succ index =>
          cases earlier with
          | zero => exact List.eraseIdx_sublist items index
          | succ earlier => exact (ih (Nat.lt_of_succ_lt_succ before)).cons_cons item

/-- When acceptance of a list carries over to every longer one, an item that stayed cannot be
taken out of the result: its removal was refused from a list that had more items. -/
theorem eraseGreedily_minimal (removable : Item → Bool) (accepts : List Item → Bool)
    (monotone : ∀ small large : List Item, small.Sublist large → accepts small = true →
      accepts large = true)
    {index : Nat} {items : List Item}
    (settled : ∀ (earlier : Nat) (inside : earlier < items.length), earlier < index →
      removable items[earlier] = true → accepts (items.eraseIdx earlier) = false)
    (position : Nat) (inside : position < (eraseGreedily removable accepts index items).length)
    (removes : removable (eraseGreedily removable accepts index items)[position] = true) :
    accepts ((eraseGreedily removable accepts index items).eraseIdx position) = false := by
  fun_induction eraseGreedily removable accepts index items with
  | case1 index items within _ ih =>
      apply ih _ inside removes
      intro earlier low before removed
      rw [List.length_eraseIdx_of_lt within] at low
      have same : (items.eraseIdx index)[earlier] = items[earlier] :=
        List.getElem_eraseIdx_of_lt _ before
      rw [same] at removed
      have refused := settled earlier (by omega) before removed
      apply Bool.eq_false_iff.mpr
      intro accepted
      have grown := monotone _ _ (eraseIdx_eraseIdx_sublist items before) accepted
      rw [refused] at grown
      cases grown
  | case2 index items within keeps ih =>
      apply ih _ inside removes
      intro earlier low before removed
      obtain less | rfl := Nat.lt_succ_iff_lt_or_eq.mp before
      · exact settled earlier low less removed
      · rw [removed, Bool.true_and] at keeps
        exact Bool.eq_false_iff.mpr keeps
  | case3 index items past => exact settled position inside (by omega) removes

end Foundation

import Mathlib.Data.List.Nodup
import Mathlib.Data.List.Range

/-! Lists that a counter has numbered: the items carry the labels of one, two
and so on, in their order. -/

set_option autoImplicit false

namespace Foundation

variable {Item Label : Type} {labelOf : Item → Label} {label : Nat → Label}

def Numbered (labelOf : Item → Label) (label : Nat → Label) (items : List Item) : Prop :=
  items.map labelOf = (List.range' 1 items.length).map label

namespace Numbered

theorem nil : Numbered labelOf label [] := rfl

theorem concat {items : List Item} (numbered : Numbered labelOf label items) {item : Item}
    (next : labelOf item = label (items.length + 1)) :
    Numbered labelOf label (items ++ [item]) := by
  have number : 1 + 1 * items.length = items.length + 1 := by omega
  rw [Numbered, List.map_append, List.length_append, List.length_singleton, List.range'_concat,
    List.map_append, List.map_singleton, List.map_singleton, numbered, number, next]

theorem nodup {items : List Item} (numbered : Numbered labelOf label items)
    (distinct : ∀ first second, first ≤ items.length → second ≤ items.length →
      label first = label second → first = second) :
    (items.map labelOf).Nodup := by
  rw [numbered]
  apply List.Nodup.map_on
  · intro first known second other same
    have firstBounds := List.mem_range'_1.mp known
    have secondBounds := List.mem_range'_1.mp other
    exact distinct first second (by omega) (by omega) same
  · exact List.nodup_range'

end Numbered

end Foundation

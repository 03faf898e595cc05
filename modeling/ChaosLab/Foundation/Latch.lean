import Mathlib.Data.List.Nodup
import Mathlib.Data.List.Forall2

/-! Lists whose entries are set once and never cleared, with a report of what was set. -/

set_option autoImplicit false

namespace Foundation

variable {α κ : Type} {set : α → Bool} {key : α → κ}

/-- What may happen to one entry. -/
def Stays (set : α → Bool) (key : α → κ) (old new : α) : Prop :=
  key new = key old ∧ (set old = true → set new = true)

theorem forall₂_stays_trans {first second third : List α}
    (left : List.Forall₂ (Stays set key) first second)
    (right : List.Forall₂ (Stays set key) second third) :
    List.Forall₂ (Stays set key) first third := by
  induction left generalizing third with
  | nil =>
      cases right
      exact .nil
  | cons near _ ih =>
      cases right with
      | cons far rest => exact .cons ⟨far.1.trans near.1, far.2 ∘ near.2⟩ (ih rest)

theorem map_key_of_forall₂_stays {before after : List α}
    (kept : List.Forall₂ (Stays set key) before after) : after.map key = before.map key := by
  induction kept with
  | nil => rfl
  | cons related _ ih => rw [List.map_cons, List.map_cons, related.1, ih]

/-- From `before` to `after` no entry was cleared, and `report` has the key of each entry
that was set on the way, once for each. -/
structure Latched (set : α → Bool) (key : α → κ) (before : List α) (report : List κ)
    (after : List α) : Prop where
  kept : List.Forall₂ (Stays set key) before after
  accounted : (report ++ (before.filter set).map key).Perm ((after.filter set).map key)

namespace Latched

theorem refl (entries : List α) : Latched set key entries [] entries where
  kept := List.forall₂_same.mpr fun _ _ => ⟨rfl, id⟩
  accounted := .refl _

theorem trans {first second third : List α} {early late : List κ}
    (left : Latched set key first early second) (right : Latched set key second late third) :
    Latched set key first (early ++ late) third where
  kept := forall₂_stays_trans left.kept right.kept
  accounted := by
    have reordered : (early ++ late ++ (first.filter set).map key).Perm
        (late ++ (early ++ (first.filter set).map key)) := by
      rw [List.append_assoc]
      exact List.perm_append_comm_assoc early late _
    exact (reordered.trans (left.accounted.append_left late)).trans right.accounted

theorem cons_unchanged {before after : List α} {report : List κ} (entry : α)
    (rest : Latched set key before report after) :
    Latched set key (entry :: before) report (entry :: after) where
  kept := .cons ⟨rfl, id⟩ rest.kept
  accounted := by
    cases known : set entry with
    | false => simpa [known] using rest.accounted
    | true =>
        rw [List.filter_cons_of_pos known, List.filter_cons_of_pos known]
        exact List.perm_middle.trans (rest.accounted.cons (key entry))

theorem cons_set {before after : List α} {report : List κ} {old new : α}
    (clear : set old = false) (marked : set new = true) (same : key new = key old)
    (rest : Latched set key before report after) :
    Latched set key (old :: before) (key old :: report) (new :: after) where
  kept := .cons ⟨same, fun _ => marked⟩ rest.kept
  accounted := by
    rw [List.filter_cons_of_neg (by simp [clear]), List.filter_cons_of_pos marked, List.map_cons,
      same]
    exact rest.accounted.cons (key old)

theorem report_perm {before after : List α} {report : List κ}
    (latched : Latched set key before report after)
    (clear : ∀ entry ∈ before, set entry = false) :
    report.Perm ((after.filter set).map key) := by
  have none_set : before.filter set = [] := by
    rw [List.filter_eq_nil_iff]
    intro entry member
    simp [clear entry member]
  simpa [none_set] using latched.accounted

end Latched

end Foundation

import ChaosLab.Foundation.Delimited
import Mathlib.Data.List.Infix

/-! Texts searched for a needle: a search cut by a symbol the needle does not have, and a needle
with a mark against the fields of a marked text. -/

set_option autoImplicit false

namespace Foundation

variable {Symbol : Type} {needle first second field left right rest ending : List Symbol}
  {mark : Symbol}

theorem not_infix_nil (nonempty : needle ≠ []) : ¬ needle <:+: [] :=
  fun inside => nonempty (List.infix_nil.mp inside)

theorem infix_append_cons_iff (absent : mark ∉ needle) :
    needle <:+: left ++ mark :: right ↔ needle <:+: left ∨ needle <:+: right := by
  constructor
  · intro inside
    rcases List.infix_append_iff_ne_nil.mp inside with
      before | after | ⟨head, tail, -, nonempty, rfl, -, starts⟩
    · exact .inl before
    · rcases List.infix_cons_iff.mp after with starts | after
      · rcases List.prefix_cons_iff.mp starts with rfl | ⟨tail, rfl, -⟩
        · exact .inl (List.nil_infix)
        · exact absurd (.head _) absent
      · exact .inr after
    · rcases List.prefix_cons_iff.mp starts with rfl | ⟨others, rfl, -⟩
      · exact absurd rfl nonempty
      · exact absurd (by simp) absent
  · intro inside
    rcases inside with before | after
    · exact List.infix_append_of_infix_left before
    · exact List.infix_append_of_infix_right (List.infix_cons after)

/-- A needle is not found across a line ending it has no symbol of. -/
theorem infix_append_ending_iff (nonempty : needle ≠ []) (ends : ending ≠ [])
    (apart : ∀ symbol ∈ ending, symbol ∉ needle) :
    needle <:+: left ++ (ending ++ right) ↔ needle <:+: left ∨ needle <:+: right := by
  induction ending generalizing left with
  | nil => exact absurd rfl ends
  | cons symbol ending ih =>
      rw [List.cons_append, infix_append_cons_iff (apart _ (.head _))]
      cases ending with
      | nil => rfl
      | cons next others =>
          have within := @ih [] (by simp) fun other member => apart other (.tail _ member)
          rw [List.nil_append] at within
          simp only [within, not_infix_nil nonempty, false_or]

theorem infix_flatMap_lines_iff (nonempty : needle ≠ []) (ends : ending ≠ [])
    (apart : ∀ symbol ∈ ending, symbol ∉ needle) (lines : List (List Symbol)) :
    needle <:+: lines.flatMap (· ++ ending) ↔ ∃ line ∈ lines, needle <:+: line := by
  induction lines with
  | nil => simpa using nonempty
  | cons line lines ih =>
      rw [List.flatMap_cons, List.append_assoc,
        infix_append_ending_iff nonempty ends apart, ih]
      simp

theorem not_suffix_append {name tail : List Symbol} (longer : ¬ tail <:+ name)
    (shorter : ¬ name <:+ tail) (text : List Symbol) : ¬ name <:+ text ++ tail := by
  intro ends
  rcases List.suffix_or_suffix_of_suffix ends (List.suffix_append text tail) with inside | around
  · exact shorter inside
  · exact longer around

section Marked

variable [DecidableEq Symbol]

theorem append_cons_inj_left (leftClean : mark ∉ left) (fieldClean : mark ∉ field) :
    left ++ mark :: right = field ++ mark :: rest ↔ left = field ∧ right = rest := by
  constructor
  · intro same
    have cut := congrArg (cutAt mark) same
    rw [cutAt_append leftClean, cutAt_append fieldClean] at cut
    exact Prod.mk.inj (Option.some.inj cut)
  · rintro ⟨rfl, rfl⟩
    rfl

theorem prefix_marked_iff (firstClean : mark ∉ first) (fieldClean : mark ∉ field) :
    first ++ mark :: second <+: field ++ mark :: rest ↔ first = field ∧ second <+: rest := by
  constructor
  · rintro ⟨others, same⟩
    rw [List.append_assoc, List.cons_append, append_cons_inj_left firstClean fieldClean] at same
    exact ⟨same.1, others, same.2⟩
  · rintro ⟨rfl, others, rfl⟩
    exact ⟨others, by simp⟩

/-- A marked needle begins at the end of the first field or further on. -/
theorem infix_marked_iff (firstClean : mark ∉ first) (fieldClean : mark ∉ field) :
    first ++ mark :: second <:+: field ++ mark :: rest ↔
      (first <:+ field ∧ second <+: rest) ∨ first ++ mark :: second <:+: rest := by
  constructor
  · rintro ⟨before, after, same⟩
    by_cases marked : mark ∈ before
    · obtain ⟨clean, further, rfl, absent⟩ := List.eq_append_cons_of_mem marked
      rw [List.append_assoc, List.append_assoc, List.cons_append,
        append_cons_inj_left absent fieldClean] at same
      exact .inr ⟨further, after, by rw [List.append_assoc]; exact same.2⟩
    · have absent : mark ∉ before ++ first := by simp [marked, firstClean]
      rw [← List.append_assoc, List.append_assoc, List.cons_append,
        append_cons_inj_left absent fieldClean] at same
      exact .inl ⟨⟨before, same.1⟩, after, same.2⟩
  · rintro (⟨⟨before, rfl⟩, after, rfl⟩ | inside)
    · exact ⟨before, after, by simp⟩
    · exact List.infix_append_of_infix_right (List.infix_cons inside)

end Marked

end Foundation

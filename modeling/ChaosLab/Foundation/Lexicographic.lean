import Mathlib.Data.List.Basic

/-! Texts in the lexicographic order beside a fixed word, when they are made longer or shorter at
a symbol that comes before all of the word. -/

set_option autoImplicit false

namespace Foundation

variable {Symbol : Type} [Ord Symbol]

section Longer

variable {text word : List Symbol}

theorem compare_append_right (less : compare word text = .lt) (rest : List Symbol) :
    compare word (text ++ rest) = .lt := by
  induction word generalizing text with
  | nil =>
      cases text with
      | nil => cases less
      | cons symbol text => rfl
  | cons first word ih =>
      cases text with
      | nil => cases less
      | cons symbol text =>
          rw [List.compare_cons_cons, Ordering.then_eq_lt] at less
          rw [List.cons_append, List.compare_cons_cons, Ordering.then_eq_lt]
          exact less.imp_right fun tail => ⟨tail.1, ih tail.2⟩

/-- What comes before a word does so when it is cut short. -/
theorem compare_of_append (rest : List Symbol) (less : compare (text ++ rest) word = .lt) :
    compare text word = .lt := by
  induction text generalizing word with
  | nil =>
      cases word with
      | nil =>
          cases rest with
          | nil => cases less
          | cons symbol rest => cases less
      | cons first word => rfl
  | cons symbol text ih =>
      cases word with
      | nil => cases less
      | cons first word =>
          rw [List.cons_append, List.compare_cons_cons, Ordering.then_eq_lt] at less
          rw [List.compare_cons_cons, Ordering.then_eq_lt]
          exact less.imp_right fun tail => ⟨tail.1, ih tail.2⟩

end Longer

section Marked

variable {mark : Symbol} {text word rest : List Symbol}

theorem compare_append_mark (low : ∀ symbol ∈ word, compare mark symbol = .lt)
    (less : compare text word = .lt) : compare (text ++ mark :: rest) word = .lt := by
  induction text generalizing word with
  | nil =>
      cases word with
      | nil => cases less
      | cons first word =>
          rw [List.nil_append, List.compare_cons_cons, low first List.mem_cons_self]
          rfl
  | cons symbol text ih =>
      cases word with
      | nil => cases less
      | cons first word =>
          rw [List.forall_mem_cons] at low
          rw [List.compare_cons_cons, Ordering.then_eq_lt] at less
          rw [List.cons_append, List.compare_cons_cons, Ordering.then_eq_lt]
          exact less.imp_right fun tail => ⟨tail.1, ih low.2 tail.2⟩

theorem compare_self_append [Std.ReflOrd Symbol] (symbol : Symbol) :
    compare word (word ++ symbol :: rest) = .lt := by
  induction word with
  | nil => rfl
  | cons first word ih =>
      rw [List.cons_append, List.compare_cons_cons, Std.compare_self]
      exact ih

/-- What comes after a word still does so, or is the word, when it is cut short at the mark. -/
theorem eq_or_compare_of_append_mark [Std.TransOrd Symbol] [Std.LawfulEqOrd Symbol]
    (low : ∀ symbol ∈ word, compare mark symbol = .lt)
    (less : compare word (text ++ mark :: rest) = .lt) :
    text = word ∨ compare word text = .lt := by
  induction text generalizing word with
  | nil =>
      cases word with
      | nil => exact .inl rfl
      | cons first word =>
          rw [List.nil_append, List.compare_cons_cons,
            Std.OrientedCmp.gt_of_lt (low first List.mem_cons_self)] at less
          cases less
  | cons symbol text ih =>
      cases word with
      | nil => exact .inr rfl
      | cons first word =>
          rw [List.forall_mem_cons] at low
          rw [List.cons_append, List.compare_cons_cons, Ordering.then_eq_lt] at less
          rw [List.compare_cons_cons, Ordering.then_eq_lt]
          obtain early | ⟨alike, late⟩ := less
          · exact .inr (.inl early)
          · obtain same | later := ih low.2 late
            · exact .inl (by rw [same, Std.compare_eq_iff_eq.mp alike])
            · exact .inr (.inr ⟨alike, later⟩)

end Marked

/-- A word whose first symbol does not occur in it again does not overlap itself. -/
theorem eq_nil_or_of_append_eq {Symbol : Type} {first : Symbol}
    {word before left right : List Symbol} (once : first ∉ word)
    (same : before ++ (first :: word ++ left) = first :: word ++ right) :
    before = [] ∨ ∃ between, before = first :: word ++ between ∧
      right = between ++ (first :: word ++ left) := by
  obtain ⟨middle, whole, tails⟩ | ⟨between, longer, tails⟩ := List.append_eq_append_iff.mp same
  · cases before with
    | nil => exact .inl rfl
    | cons symbol before =>
        rw [List.cons_append, List.cons.injEq] at whole
        cases middle with
        | nil =>
            rw [List.append_nil] at whole
            exact .inr ⟨[], by rw [whole.1, whole.2, List.append_nil], tails.symm⟩
        | cons second middle =>
            obtain ⟨rfl, -⟩ := List.cons.inj tails
            exact absurd (by rw [whole.2]; simp) once
  · exact .inr ⟨between, longer, tails⟩

end Foundation

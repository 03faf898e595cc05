import Mathlib

/-! Lists of entries written one after the other, each with a mark at its end. -/

set_option autoImplicit false

namespace Foundation

variable {Symbol : Type} [DecidableEq Symbol] (mark : Symbol)

/-- The entries of a text up to an empty one, of which `entry` has been read. -/
def entriesFrom (entry : List Symbol) : List Symbol → List (List Symbol)
  | [] => []
  | symbol :: rest =>
      if symbol = mark then if entry = [] then [] else entry :: entriesFrom [] rest
      else entriesFrom (entry ++ [symbol]) rest

/-- Whether some entry of a text passes a test. -/
def anyEntryFrom (test : List Symbol → Bool) (entry : List Symbol) : List Symbol → Bool
  | [] => false
  | symbol :: rest =>
      if symbol = mark then test entry || anyEntryFrom test [] rest
      else anyEntryFrom test (entry ++ [symbol]) rest

def terminated (entries : List (List Symbol)) : List Symbol :=
  entries.flatMap fun entry => entry ++ [mark]

omit [DecidableEq Symbol] in
theorem terminated_cons (entry : List Symbol) (entries : List (List Symbol)) :
    terminated mark (entry :: entries) = entry ++ mark :: terminated mark entries := by
  simp [terminated]

omit [DecidableEq Symbol] in
theorem terminated_append (first second : List (List Symbol)) :
    terminated mark (first ++ second) = terminated mark first ++ terminated mark second :=
  List.flatMap_append

variable {mark}

theorem entriesFrom_append {entry : List Symbol} (absent : mark ∉ entry)
    (begun rest : List Symbol) :
    entriesFrom mark begun (entry ++ rest) = entriesFrom mark (begun ++ entry) rest := by
  induction entry generalizing begun with
  | nil => rw [List.nil_append, List.append_nil]
  | cons symbol entry ih =>
      rw [List.mem_cons, not_or] at absent
      rw [List.cons_append, entriesFrom, if_neg (Ne.symm absent.1), ih absent.2, List.append_assoc,
        List.singleton_append]

theorem anyEntryFrom_append {test : List Symbol → Bool} {entry : List Symbol}
    (absent : mark ∉ entry) (begun rest : List Symbol) :
    anyEntryFrom mark test begun (entry ++ rest) = anyEntryFrom mark test (begun ++ entry) rest := by
  induction entry generalizing begun with
  | nil => rw [List.nil_append, List.append_nil]
  | cons symbol entry ih =>
      rw [List.mem_cons, not_or] at absent
      rw [List.cons_append, anyEntryFrom, if_neg (Ne.symm absent.1), ih absent.2,
        List.append_assoc, List.singleton_append]

/-- What is written is read back, up to the empty entry after it. -/
theorem entriesFrom_terminated {entries : List (List Symbol)}
    (clean : ∀ entry ∈ entries, entry ≠ [] ∧ mark ∉ entry) (rest : List Symbol) :
    entriesFrom mark [] (terminated mark entries ++ mark :: rest) = entries := by
  induction entries with
  | nil => simp [terminated, entriesFrom]
  | cons entry entries ih =>
      obtain ⟨nonempty, absent⟩ := clean entry (.head _)
      rw [terminated_cons, List.append_assoc, entriesFrom_append absent, List.nil_append,
        List.cons_append, entriesFrom, if_pos rfl, if_neg nonempty,
        ih fun other member => clean other (.tail _ member)]

theorem anyEntryFrom_terminated (test : List Symbol → Bool) {entries : List (List Symbol)}
    (clean : ∀ entry ∈ entries, mark ∉ entry) :
    anyEntryFrom mark test [] (terminated mark entries) = entries.any test := by
  induction entries with
  | nil => rfl
  | cons entry entries ih =>
      rw [terminated_cons, anyEntryFrom_append (clean entry (.head _)), List.nil_append,
        anyEntryFrom, if_pos rfl, ih fun other member => clean other (.tail _ member),
        List.any_cons]

theorem notMem_of_mem_entriesFrom {text begun entry : List Symbol} (absent : mark ∉ begun)
    (member : entry ∈ entriesFrom mark begun text) : mark ∉ entry := by
  induction text generalizing begun with
  | nil => simp [entriesFrom] at member
  | cons symbol text ih =>
      unfold entriesFrom at member
      split_ifs at member with ends empty
      · cases member
      · cases member with
        | head => exact absent
        | tail _ later => exact ih List.not_mem_nil later
      · apply ih _ member
        simpa [absent] using Ne.symm ends

end Foundation

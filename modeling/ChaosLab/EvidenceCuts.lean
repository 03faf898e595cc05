import ChaosLab.EvidenceColumns

/-! Where a fields column can be cut: the text before an equality sign, read in place of another
one, and several fields read as one. -/

set_option autoImplicit false

namespace ChaosLab

open Foundation

theorem Unbroken.of_infix {text inner : Bytes} (unbroken : Unbroken text)
    (inside : inner <:+: text) : Unbroken inner := by
  obtain ⟨noNewline, noReturn, noN, noR⟩ := unbroken
  exact ⟨fun member => noNewline (inside.subset member),
    fun member => noReturn (inside.subset member),
    fun escape => noN (escape.trans inside), fun escape => noR (escape.trans inside)⟩

section Cuts

/-- An equality sign of an escaped text is one of the text. -/
theorem esc_eq_append_equals {text left right : Bytes}
    (written : esc text = left ++ Byte.equals :: right) :
    ∃ before after, text = before ++ Byte.equals :: after ∧ esc before = left ∧
      esc after = right := by
  induction text generalizing left with
  | nil => simp at written
  | cons byte text ih =>
      rw [esc_cons] at written
      obtain ⟨plain, -⟩ | ⟨letter, escaped, decoded, -⟩ := escByte_cases byte
      · rw [plain, List.singleton_append] at written
        cases left with
        | nil =>
            obtain ⟨rfl, tails⟩ := List.cons.inj written
            exact ⟨[], text, rfl, rfl, tails⟩
        | cons first left =>
            obtain ⟨rfl, tails⟩ := List.cons.inj written
            obtain ⟨before, after, rfl, front, back⟩ := ih tails
            exact ⟨byte :: before, after, rfl, by rw [esc_cons, plain, front]; rfl, back⟩
      · rw [escaped, List.cons_append, List.singleton_append] at written
        cases left with
        | nil => cases (List.cons.inj written).1
        | cons first left =>
            obtain ⟨rfl, tails⟩ := List.cons.inj written
            cases left with
            | nil =>
                have letters : letter = Byte.equals := (List.cons.inj tails).1
                rw [letters] at decoded
                cases decoded
            | cons second left =>
                obtain ⟨rfl, ends⟩ := List.cons.inj tails
                obtain ⟨before, after, rfl, front, back⟩ := ih ends
                exact ⟨byte :: before, after, rfl, by rw [esc_cons, escaped, front]; rfl, back⟩

theorem esc_eq_cons {text right : Bytes} {byte : UInt8} (unmarked : byte ≠ Byte.backslash)
    (written : esc text = byte :: right) :
    ∃ rest, text = byte :: rest ∧ escByte byte = [byte] ∧ esc rest = right := by
  cases text with
  | nil => cases written
  | cons first rest =>
      rw [esc_cons] at written
      obtain ⟨plain, -⟩ | ⟨letter, escaped, -⟩ := escByte_cases first
      · rw [plain, List.singleton_append] at written
        obtain ⟨rfl, tails⟩ := List.cons.inj written
        exact ⟨rest, rfl, plain, tails⟩
      · rw [escaped] at written
        exact absurd (List.cons.inj written).1.symm unmarked

/-- Texts that are written alike differ first at a line break and the backslash of its escape. -/
theorem first_of_esc_eq {byte other : UInt8} {left right : Bytes} (differ : byte ≠ other)
    (same : esc (byte :: left) = esc (other :: right)) :
    byte = Byte.backslash ∨ byte = Byte.newline ∨ byte = Byte.carriageReturn := by
  rw [esc_cons, esc_cons] at same
  obtain ⟨plain, -⟩ | ⟨letter, escaped, decoded, -⟩ := escByte_cases byte
  · obtain ⟨otherPlain, -⟩ | ⟨letter, escaped, -⟩ := escByte_cases other
    · rw [plain, otherPlain] at same
      exact absurd (List.cons.inj same).1 differ
    · rw [plain, escaped] at same
      exact .inl (List.cons.inj same).1
  · obtain ⟨otherPlain, -⟩ | ⟨otherLetter, otherEscaped, otherDecoded, -⟩ := escByte_cases other
    · rw [escaped, otherPlain] at same
      unfold unescTable at decoded
      split_ifs at decoded with isN isR isPipe
      · exact .inr (.inl (Option.some.inj decoded).symm)
      · exact .inr (.inr (Option.some.inj decoded).symm)
      · rw [isPipe] at same
        obtain ⟨-, -, plain, -⟩ := esc_eq_cons (by decide) (List.cons.inj same).2.symm
        cases plain
    · rw [escaped, otherEscaped] at same
      rw [(List.cons.inj (List.cons.inj same).2).1, otherDecoded] at decoded
      exact absurd (Option.some.inj decoded).symm differ

/-- To a word of letters they stand in the same order. -/
theorem compare_eq_of_esc_eq {left right word : Bytes}
    (high : ∀ symbol ∈ word, compare Byte.backslash symbol = .lt) (same : esc left = esc right) :
    compare left word = compare right word := by
  have below {byte symbol : UInt8} (higher : compare Byte.backslash symbol = .lt)
      (first : byte = Byte.backslash ∨ byte = Byte.newline ∨ byte = Byte.carriageReturn) :
      compare byte symbol = .lt := by
    obtain rfl | rfl | rfl := first
    · exact higher
    · exact Std.TransCmp.lt_trans (by decide +kernel) higher
    · exact Std.TransCmp.lt_trans (by decide +kernel) higher
  have filled (byte : UInt8) (text : Bytes) : esc (byte :: text) ≠ [] := by
    rw [esc_cons]
    obtain ⟨plain, -⟩ | ⟨letter, escaped, -⟩ := escByte_cases byte
    · simp [plain]
    · simp [escaped]
  induction word generalizing left right with
  | nil =>
      cases left with
      | nil =>
          cases right with
          | nil => rfl
          | cons other right => exact absurd same.symm (filled other right)
      | cons byte left =>
          cases right with
          | nil => exact absurd same (filled byte left)
          | cons other right => rfl
  | cons symbol word ih =>
      rw [List.forall_mem_cons] at high
      cases left with
      | nil =>
          cases right with
          | nil => rfl
          | cons other right => exact absurd same.symm (filled other right)
      | cons byte left =>
          cases right with
          | nil => exact absurd same (filled byte left)
          | cons other right =>
              rw [List.compare_cons_cons, List.compare_cons_cons]
              by_cases alike : byte = other
              · rw [alike, esc_cons, esc_cons] at same
                rw [alike, ih high.2 (List.append_cancel_left same)]
              · rw [below high.1 (first_of_esc_eq alike same),
                  below high.1 (first_of_esc_eq (Ne.symm alike) same.symm)]
                rfl

/-- A text before an equality sign, read where a plain one was written: it is that one, or it
goes on behind the sign. -/
theorem eq_or_eq_append_of_esc {text key tail rest : Bytes}
    (plain : Byte.equals ∉ key ∧ Unbroken key)
    (same : esc text ++ Byte.equals :: tail = esc key ++ Byte.equals :: rest) :
    text = key ∧ tail = rest ∨
      ∃ more, text = key ++ Byte.equals :: more ∧ esc more ++ Byte.equals :: tail = rest := by
  obtain ⟨middle, longer, tails⟩ | ⟨middle, longer, tails⟩ := List.append_eq_append_iff.mp same
  · cases middle with
    | nil =>
        rw [List.append_nil] at longer
        exact .inl ⟨esc_unique_iff.mpr plain.2 text longer.symm, (List.cons.inj tails).2⟩
    | cons byte middle =>
        obtain ⟨rfl, -⟩ := List.cons.inj tails
        exact absurd (equals_mem_esc_iff.mp (by rw [longer]; simp)) plain.1
  · cases middle with
    | nil =>
        rw [List.append_nil] at longer
        exact .inl ⟨esc_unique_iff.mpr plain.2 text longer, (List.cons.inj tails).2.symm⟩
    | cons byte middle =>
        obtain ⟨rfl, ends⟩ := List.cons.inj tails
        obtain ⟨before, more, rfl, front, back⟩ := esc_eq_append_equals longer
        rw [esc_unique_iff.mpr plain.2 before front]
        exact .inr ⟨more, rfl, by rw [back]; exact ends.symm⟩

end Cuts

section Entries

/-- Entries as they are written behind others, before the escape. -/
def restText (entries : List (Bytes × Bytes)) : Bytes :=
  entries.flatMap fun entry => Byte.comma :: entry.1 ++ Byte.equals :: entry.2

theorem esc_restText (entries : List (Bytes × Bytes)) :
    esc (restText entries) = fieldsText false entries := by
  induction entries with
  | nil => rfl
  | cons entry entries ih =>
      have whole : restText (entry :: entries) =
          Byte.comma :: entry.1 ++ Byte.equals :: entry.2 ++ restText entries := rfl
      rw [whole, esc_append, ih, esc_append_cons rfl, esc_cons]
      simp [fieldsText]

theorem fieldsText_append {left : List (Bytes × Bytes)} (nonempty : left ≠ []) (first : Bool)
    (right : List (Bytes × Bytes)) :
    fieldsText first (left ++ right) = fieldsText first left ++ fieldsText false right := by
  induction left generalizing first with
  | nil => contradiction
  | cons entry left ih =>
      have step (entries : List (Bytes × Bytes)) : fieldsText first (entry :: entries) =
          (if first then [] else [Byte.comma]) ++ esc entry.1 ++ [Byte.equals] ++ esc entry.2 ++
            fieldsText false entries := rfl
      rw [List.cons_append, step, step]
      cases left with
      | nil => simp [fieldsText]
      | cons second left => rw [ih (by simp), List.append_assoc _ (fieldsText false _)]

/-- What stands behind the first key is read as one value. -/
theorem fieldsText_true_cons (entry : Bytes × Bytes) (entries : List (Bytes × Bytes)) :
    fieldsText true (entry :: entries) =
      esc entry.1 ++ Byte.equals :: esc (entry.2 ++ restText entries) := by
  rw [fieldsText_cons, esc_append, esc_restText]

theorem fieldsText_singleton (key value : Bytes) :
    fieldsText true [(key, value)] = esc key ++ Byte.equals :: esc value := by
  simp [fieldsText]

theorem fieldsText_false_singleton (key value : Bytes) :
    fieldsText false [(key, value)] = Byte.comma :: (esc key ++ Byte.equals :: esc value) := by
  simp [fieldsText]

theorem fieldsText_false_cons (entry : Bytes × Bytes) (entries : List (Bytes × Bytes)) :
    fieldsText false (entry :: entries) =
      Byte.comma :: (esc entry.1 ++ Byte.equals :: esc (entry.2 ++ restText entries)) := by
  rw [esc_append, esc_restText]
  simp [fieldsText]

theorem eq_nil_of_restText {entries : List (Bytes × Bytes)} {text value : Bytes}
    (absent : Byte.equals ∉ value) (same : text ++ restText entries = value) :
    entries = [] ∧ text = value := by
  cases entries with
  | nil => exact ⟨rfl, by rw [← same]; simp [restText]⟩
  | cons entry entries => exact absurd (by rw [← same]; simp [restText]) absent

end Entries

end ChaosLab

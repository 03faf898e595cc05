import ChaosLab.Foundation.Json
import Mathlib.Data.List.Basic

/-! Strings and names in JSON texts: what stands for itself, and what does not. -/

set_option autoImplicit false

namespace Foundation.Json

section Escapes

theorem hexDigit_quote : hexDigit quote = none := by decide

theorem hex4_eq_some {text rest : List UInt8} {code : Nat} (read : hex4 text = some (code, rest)) :
    ∃ taken, text = taken ++ rest ∧ taken.length = 4 ∧ quote ∉ taken := by
  cases text with
  | nil => cases read
  | cons first text =>
      cases text with
      | nil => cases read
      | cons second text =>
          cases text with
          | nil => cases read
          | cons third text =>
              cases text with
              | nil => cases read
              | cons fourth text =>
                  simp only [hex4, Option.bind_eq_bind, Option.bind_eq_some_iff, Option.pure_def,
                    Option.some.injEq, Prod.mk.injEq] at read
                  obtain ⟨one, h1, two, h2, three, h3, four, h4, -, rfl⟩ := read
                  refine ⟨[first, second, third, fourth], rfl, rfl, ?_⟩
                  have unlike {byte : UInt8} {digit : Nat} (known : hexDigit byte = some digit) :
                      quote ≠ byte := by
                    intro same
                    rw [← same, hexDigit_quote] at known
                    cases known
                  simp [unlike h1, unlike h2, unlike h3, unlike h4]

theorem lowSurrogate_eq_some {text rest : List UInt8} {low : Nat}
    (read : lowSurrogate text = some (low, rest)) :
    ∃ taken, text = taken ++ rest ∧ taken.length = 6 ∧ quote ∉ taken := by
  cases text with
  | nil => cases read
  | cons first text =>
      cases text with
      | nil => cases read
      | cons second text =>
          simp only [lowSurrogate] at read
          split_ifs at read with opening
          obtain ⟨rfl, rfl⟩ := opening
          cases digits : hex4 text with
          | none => simp [digits] at read
          | some half =>
              obtain ⟨code, after⟩ := half
              simp only [digits] at read
              split_ifs at read
              cases read
              obtain ⟨taken, rfl, four, absent⟩ := hex4_eq_some digits
              refine ⟨backslash :: letterU :: taken, rfl, by simp [four], ?_⟩
              simp [absent, show quote ≠ backslash by decide, show quote ≠ letterU by decide]

theorem length_utf8_le (code : Nat) : (utf8 code).length ≤ 4 := by
  rw [utf8, String.length_utf8EncodeChar]
  exact Char.utf8Size_le_four _

theorem unicodeEscape_eq_some {text decoded rest : List UInt8}
    (read : unicodeEscape text = some (decoded, rest)) :
    ∃ taken, text = taken ++ rest ∧ decoded.length ≤ taken.length ∧ quote ∉ taken := by
  rw [unicodeEscape] at read
  cases digits : hex4 text with
  | none => simp [digits] at read
  | some half =>
      obtain ⟨code, after⟩ := half
      obtain ⟨taken, rfl, four, absent⟩ := hex4_eq_some digits
      rw [digits] at read
      by_cases single : code < 0xd800 ∨ 0xe000 ≤ code
      · obtain ⟨rfl, rfl⟩ := Prod.mk.inj (Option.some.inj ((if_pos single).symm.trans read))
        exact ⟨taken, rfl, four ▸ length_utf8_le _, absent⟩
      · replace read := (if_neg single).symm.trans read
        by_cases high : code < 0xdc00
        · replace read := (if_pos high).symm.trans read
          obtain ⟨low, found, same⟩ := Option.map_eq_some_iff.mp read
          obtain ⟨more, rfl, six, missing⟩ := lowSurrogate_eq_some found
          obtain ⟨rfl, rfl⟩ := Prod.mk.inj same
          refine ⟨taken ++ more, by simp, ?_, by simp [absent, missing]⟩
          rw [List.length_append, four, six]
          exact (length_utf8_le _).trans (by omega)
        · cases (if_neg high).symm.trans read

/-- An escape is no shorter than what it stands for, and has a quotation mark in it only when it
stands for one. -/
theorem escape_eq_some {text decoded rest : List UInt8}
    (read : escape text = some (decoded, rest)) :
    ∃ taken, text = taken ++ rest ∧ decoded.length ≤ taken.length ∧
      (taken = [quote] ∧ decoded = [quote] ∨ quote ∉ taken) := by
  cases text with
  | nil => cases read
  | cons letter text =>
      rw [escape] at read
      cases known : letterEscape letter with
      | some byte =>
          simp only [known] at read
          cases read
          refine ⟨[letter], rfl, le_rfl, ?_⟩
          by_cases same : letter = quote
          · subst same
            cases known
            exact .inl ⟨rfl, rfl⟩
          · exact .inr (by simpa using Ne.symm same)
      | none =>
          simp only [known] at read
          split_ifs at read with numeric
          subst numeric
          obtain ⟨taken, rfl, shorter, absent⟩ := unicodeEscape_eq_some read
          refine ⟨letterU :: taken, rfl, by rw [List.length_cons]; omega, .inr ?_⟩
          simp [absent, show quote ≠ letterU by decide]

end Escapes

section Names

/-- No byte of the text has to be escaped in a string. -/
def Plain (text : List UInt8) : Prop :=
  ∀ byte ∈ text, byte ≠ quote ∧ byte ≠ backslash ∧ ¬ byte < 0x20

instance : DecidablePred Plain := fun text =>
  decidable_of_iff (text.all fun byte => byte ≠ quote ∧ byte ≠ backslash ∧ ¬ byte < 0x20) (by
    simp only [Plain, List.all_eq_true, decide_eq_true_eq])

theorem string_cons {byte : UInt8} (notQuote : byte ≠ quote) (notBackslash : byte ≠ backslash)
    (printable : ¬ byte < 0x20) (fuel : Nat) (rest : List UInt8) :
    string (fuel + 1) (byte :: rest) =
      (string fuel rest).map fun read => (byte :: read.1, read.2) := by
  rw [string, if_neg notQuote, if_neg notBackslash, if_neg printable]

theorem string_backslash {text decoded rest : List UInt8}
    (unescaped : escape text = some (decoded, rest)) (fuel : Nat) :
    string (fuel + 1) (backslash :: text) =
      (string fuel rest).map fun read => (decoded ++ read.1, read.2) := by
  rw [string, if_neg (by decide), if_pos rfl, unescaped]

theorem string_plain {text : List UInt8} (plain : Plain text) (rest : List UInt8) {fuel : Nat}
    (enough : text.length < fuel) :
    string fuel (text ++ quote :: rest) = some (text, rest) := by
  induction text generalizing fuel with
  | nil =>
      cases fuel with
      | zero => omega
      | succ fuel => simp [string]
  | cons byte text ih =>
      rw [Plain, List.forall_mem_cons] at plain
      obtain ⟨⟨notQuote, notBackslash, printable⟩, plain⟩ := plain
      cases fuel with
      | zero => omega
      | succ fuel =>
          rw [List.length_cons] at enough
          rw [List.cons_append, string_cons notQuote notBackslash printable, ih plain (by omega)]
          rfl

/-- How a name that stands between quotation marks as it is may be read when a colon and another
string follow: as itself, as something shorter, or past its own quotation mark to the next. -/
def Returns (name read : List UInt8) : Prop :=
  Plain name ∧ read = name ∨ read.length < name.length ∨
    name.getLast? = some backslash ∧ read.getLast? = some colon

theorem Returns.plain_cons {name read : List UInt8} {byte : UInt8} (notQuote : byte ≠ quote)
    (notBackslash : byte ≠ backslash) (printable : ¬ byte < 0x20) (returns : Returns name read) :
    Returns (byte :: name) (byte :: read) := by
  rcases returns with same | shorter | past
  · refine .inl ⟨?_, by rw [same.2]⟩
    exact List.forall_mem_cons.mpr ⟨⟨notQuote, notBackslash, printable⟩, same.1⟩
  · exact .inr (.inl (Nat.succ_lt_succ shorter))
  · refine .inr (.inr ?_)
    rw [List.getLast?_cons, List.getLast?_cons, past.1, past.2]
    exact ⟨rfl, rfl⟩

theorem Returns.shorten {name read taken decoded : List UInt8}
    (shorter : decoded.length < taken.length) (returns : Returns name read) :
    Returns (taken ++ name) (decoded ++ read) := by
  rcases returns with same | less | past
  · refine .inr (.inl ?_)
    rw [same.2, List.length_append, List.length_append]
    omega
  · refine .inr (.inl ?_)
    rw [List.length_append, List.length_append]
    omega
  · refine .inr (.inr ?_)
    rw [List.getLast?_append, List.getLast?_append, past.1, past.2]
    exact ⟨rfl, rfl⟩

/-- An escape ends before the quotation mark after it, or is an escape of that mark. -/
theorem escape_append_quote {name tail decoded rest : List UInt8}
    (unescaped : escape (name ++ quote :: tail) = some (decoded, rest)) :
    (∃ taken more, name = taken ++ more ∧ rest = more ++ quote :: tail ∧
      decoded.length ≤ taken.length) ∨ name = [] ∧ decoded = [quote] ∧ rest = tail := by
  obtain ⟨taken, cut, shorter, marks⟩ := escape_eq_some unescaped
  obtain ⟨more, late, early⟩ | ⟨more, early, late⟩ := List.append_eq_append_iff.mp cut
  · cases more with
    | nil =>
        refine .inl ⟨taken, [], ?_, ?_, shorter⟩
        · rw [late, List.append_nil, List.append_nil]
        · exact early.symm
    | cons byte more =>
        rw [List.cons_append, List.cons.injEq] at early
        rw [late, ← early.1] at marks
        cases marks with
        | inl quoted =>
            cases name with
            | nil =>
                obtain ⟨empty, decodes⟩ := quoted
                rw [List.nil_append, List.cons.injEq] at empty
                refine .inr ⟨rfl, decodes, ?_⟩
                rw [early.2, empty.2, List.nil_append]
            | cons first name => simp at quoted
        | inr absent => exact absurd (by simp) absent
  · exact .inl ⟨taken, more, early, late, shorter⟩

theorem string_colon {tail read left : List UInt8} {fuel : Nat}
    (parsed : string fuel (colon :: quote :: tail) = some (read, left)) : read = [colon] := by
  cases fuel with
  | zero => cases parsed
  | succ fuel =>
      cases fuel with
      | zero => cases parsed
      | succ fuel =>
          cases parsed
          rfl

theorem returns_of_string {name tail read left : List UInt8} {fuel : Nat}
    (parsed : string fuel (name ++ quote :: colon :: quote :: tail) = some (read, left)) :
    Returns name read := by
  induction fuel generalizing name read left with
  | zero => cases parsed
  | succ fuel ih =>
      cases name with
      | nil =>
          simp only [List.nil_append, string, if_true, Option.some.injEq, Prod.mk.injEq] at parsed
          exact .inl ⟨by simp [Plain], parsed.1.symm⟩
      | cons byte name =>
          rw [List.cons_append, string] at parsed
          split_ifs at parsed with ends escaped control
          · cases parsed
            exact .inr (.inl (by simp))
          · cases unescaped : escape (name ++ quote :: colon :: quote :: tail) with
            | none => simp [unescaped] at parsed
            | some found =>
                obtain ⟨decoded, rest⟩ := found
                simp only [unescaped] at parsed
                obtain ⟨⟨more, after⟩, final, same⟩ := Option.map_eq_some_iff.mp parsed
                obtain ⟨rfl, -⟩ := Prod.mk.inj same
                obtain ⟨taken, others, rfl, rfl, shorter⟩ | ⟨rfl, rfl, rfl⟩ :=
                  escape_append_quote unescaped
                · rw [← List.cons_append]
                  exact (ih final).shorten (by rw [List.length_cons]; omega)
                · refine .inr (.inr ⟨by rw [escaped]; rfl, ?_⟩)
                  rw [string_colon final]
                  rfl
          · obtain ⟨⟨more, after⟩, final, same⟩ := Option.map_eq_some_iff.mp parsed
            obtain ⟨rfl, -⟩ := Prod.mk.inj same
            exact (ih final).plain_cons ends escaped control

/-- A name is read as itself exactly when nothing in it has to be escaped. -/
theorem string_name_iff {name tail left : List UInt8} {fuel : Nat} (enough : name.length < fuel) :
    string fuel (name ++ quote :: colon :: quote :: tail) = some (name, left) ↔
      Plain name ∧ left = colon :: quote :: tail := by
  constructor
  · intro parsed
    rcases returns_of_string parsed with same | shorter | past
    · rw [string_plain same.1 _ enough, Option.some.injEq, Prod.mk.injEq] at parsed
      exact ⟨same.1, parsed.2.symm⟩
    · exact absurd shorter (Nat.lt_irrefl _)
    · rw [past.1] at past
      exact absurd past.2 (by decide)
  · intro plain
    rw [string_plain plain.1 _ enough, plain.2]

end Names

section Encoding

theorem utf8_nil : Utf8 [] := ⟨[], rfl⟩

theorem Utf8.append {left right : List UInt8} (first : Utf8 left) (second : Utf8 right) :
    Utf8 (left ++ right) := by
  obtain ⟨characters, rfl⟩ := first
  obtain ⟨others, rfl⟩ := second
  exact ⟨characters ++ others, List.flatMap_append.symm⟩

theorem utf8_toNat {byte : UInt8} (ascii : byte < 0x80) : utf8 byte.toNat = [byte] := by
  have bound : byte.toNat < 128 := UInt8.lt_iff_toNat_lt.mp ascii
  have code : (Char.ofNat byte.toNat).val.toNat = byte.toNat := by
    have valid : byte.toNat.isValidChar := .inl (by omega)
    rw [Char.ofNat, dif_pos valid]
    rfl
  have small : (Char.ofNat byte.toNat).utf8Size = 1 := by
    rw [Char.utf8Size_eq_one_iff, UInt32.le_iff_toNat_le, code]
    exact Nat.le_of_lt_succ bound
  rw [utf8, String.utf8EncodeChar_eq_singleton small, List.singleton_inj]
  apply UInt8.toNat_inj.mp
  rw [UInt32.toNat_toUInt8, code]
  omega

theorem utf8_singleton {byte : UInt8} (ascii : byte < 0x80) : Utf8 [byte] :=
  ⟨[Char.ofNat byte.toNat], by rw [List.flatMap_singleton]; exact (utf8_toNat ascii).symm⟩

theorem utf8_ascii {text : List UInt8} (ascii : text.all (· < 0x80)) : Utf8 text := by
  induction text with
  | nil => exact utf8_nil
  | cons byte text ih =>
      rw [List.all_cons, Bool.and_eq_true, decide_eq_true_eq] at ascii
      exact (utf8_singleton ascii.1).append (ih ascii.2)

/-- A character of more than one byte has no byte of an ASCII character in it. -/
theorem utf8EncodeChar_cases (character : Char) :
    (∃ byte < 0x80, String.utf8EncodeChar character = [byte]) ∨
      ∀ byte ∈ String.utf8EncodeChar character, 0x80 ≤ byte := by
  have marked {mark : UInt8} (high : 0x80 ≤ mark) (bits : UInt8) : 0x80 ≤ bits ||| mark :=
    UInt8.le_trans high UInt8.right_le_or
  rcases Char.utf8Size_eq character with one | two | three | four
  · refine .inl ⟨_, ?_, String.utf8EncodeChar_eq_singleton one⟩
    have small := Char.utf8Size_eq_one_iff.mp one
    rw [UInt32.le_iff_toNat_le] at small
    rw [UInt8.lt_iff_toNat_lt, UInt32.toNat_toUInt8]
    exact Nat.lt_of_le_of_lt (Nat.mod_le _ _) (Nat.lt_succ_of_le small)
  · rw [String.utf8EncodeChar_eq_cons_cons two]
    simp [marked]
  · rw [String.utf8EncodeChar_eq_cons_cons_cons three]
    simp [marked]
  · rw [String.utf8EncodeChar_eq_cons_cons_cons_cons four]
    simp [marked]

/-- Other texts may be put in the place of ASCII characters. -/
theorem Utf8.flatMap {text : List UInt8} (valid : Utf8 text) {write : UInt8 → List UInt8}
    (low : ∀ byte < 0x80, Utf8 (write byte)) (high : ∀ byte, 0x80 ≤ byte → write byte = [byte]) :
    Utf8 (text.flatMap write) := by
  obtain ⟨characters, rfl⟩ := valid
  induction characters with
  | nil => exact utf8_nil
  | cons character characters ih =>
      rw [List.flatMap_cons, List.flatMap_append]
      refine Utf8.append ?_ ih
      cases utf8EncodeChar_cases character with
      | inl single =>
          obtain ⟨byte, ascii, same⟩ := single
          rw [same, List.flatMap_singleton]
          exact low byte ascii
      | inr several =>
          have unchanged : (String.utf8EncodeChar character).flatMap write =
              String.utf8EncodeChar character := by
            rw [List.flatMap_congr fun byte member => high byte (several byte member)]
            simp
          rw [unchanged]
          exact ⟨[character], by simp⟩

end Encoding

end Foundation.Json

import ChaosLab.Evidence
import ChaosLab.TextProperties

/-! The escape of `esc` and `unesc`. Because a backslash is not escaped, text
with a backslash before `n` or `r` is read back as a line break. -/

set_option autoImplicit false

namespace ChaosLab

open Foundation

def unescTable (byte : UInt8) : Option UInt8 :=
  if byte = Byte.letterN then some Byte.newline
  else if byte = Byte.letterR then some Byte.carriageReturn
  else if byte = Byte.pipe then some Byte.pipe
  else none

def lineBreakTable (byte : UInt8) : Option UInt8 :=
  if byte = Byte.letterN then some Byte.newline
  else if byte = Byte.letterR then some Byte.carriageReturn
  else none

theorem unesc_eq_collapse (text : Bytes) :
    unesc text = collapse Byte.backslash unescTable text := by
  fun_induction unesc text with
  | case1 | case2 => rfl
  | case3 rest ih => simp [collapse, unescTable, ih]
  | case4 rest _ ih => simp [collapse, unescTable, ih, Byte.letterN, Byte.letterR]
  | case5 rest _ _ ih => simp [collapse, unescTable, ih, Byte.letterN, Byte.letterR, Byte.pipe]
  | case6 next rest notN notR notPipe ih => simp [collapse, unescTable, notN, notR, notPipe, ih]
  | case7 byte next rest notBackslash ih => simp [collapse, notBackslash, ih]

theorem unesc_cons_of_ne {byte : UInt8} (unmarked : byte ≠ Byte.backslash) (rest : Bytes) :
    unesc (byte :: rest) = byte :: unesc rest := by
  cases rest with
  | nil => rfl
  | cons next rest => rw [unesc, if_neg unmarked]

theorem unesc_backslash_cons {next : UInt8} (undecoded : unescTable next = none)
    (rest : Bytes) :
    unesc (Byte.backslash :: next :: rest) = Byte.backslash :: unesc (next :: rest) := by
  rw [unesc_eq_collapse, unesc_eq_collapse]
  simp [collapse, undecoded]

theorem unesc_escape {next byte : UInt8} (decoded : unescTable next = some byte)
    (rest : Bytes) : unesc (Byte.backslash :: next :: rest) = byte :: unesc rest := by
  rw [unesc_eq_collapse, unesc_eq_collapse]
  simp [collapse, decoded]

@[simp] theorem esc_nil : esc [] = [] := rfl

@[simp] theorem esc_cons (byte : UInt8) (rest : Bytes) :
    esc (byte :: rest) = escByte byte ++ esc rest := rfl

theorem esc_append (left right : Bytes) : esc (left ++ right) = esc left ++ esc right := by
  simp [esc]

theorem escByte_cases (byte : UInt8) :
    (escByte byte = [byte] ∧ byte ≠ Byte.newline ∧ byte ≠ Byte.carriageReturn ∧
      byte ≠ Byte.pipe) ∨
    ∃ letter, escByte byte = [Byte.backslash, letter] ∧ unescTable letter = some byte ∧
      byte ≠ Byte.backslash := by
  unfold escByte
  split
  · rename_i same
    exact .inr ⟨Byte.letterN, rfl, by simp [unescTable, same], by subst same; decide⟩
  · split
    · rename_i same
      exact .inr ⟨Byte.letterR, rfl, by subst same; decide, by subst same; decide⟩
    · split
      · rename_i same
        exact .inr ⟨Byte.pipe, rfl, by subst same; decide, by subst same; decide⟩
      · exact .inl ⟨rfl, ‹_›, ‹_›, ‹_›⟩

theorem unesc_escByte_append {byte : UInt8} (unmarked : byte ≠ Byte.backslash)
    (rest : Bytes) : unesc (escByte byte ++ rest) = byte :: unesc rest := by
  rcases escByte_cases byte with ⟨plain, -⟩ | ⟨letter, escaped, decoded, -⟩
  · rw [plain]
    exact unesc_cons_of_ne unmarked rest
  · rw [escaped]
    exact unesc_escape decoded rest

/-- Escaped text never continues a literal backslash, unless the next character
is a plain `n` or `r`. -/
theorem unesc_backslash_esc_cons {next : UInt8} (unprotected : lineBreakTable next = none)
    (rest : Bytes) :
    unesc (Byte.backslash :: esc (next :: rest)) =
      Byte.backslash :: unesc (esc (next :: rest)) := by
  rcases escByte_cases next with ⟨plain, -, -, notPipe⟩ | ⟨letter, escaped, -, -⟩
  · have undecoded : unescTable next = none := by
      unfold lineBreakTable at unprotected
      split at unprotected
      · cases unprotected
      · split at unprotected
        · cases unprotected
        · simp [unescTable, *]
    rw [esc_cons, plain]
    exact unesc_backslash_cons undecoded _
  · rw [esc_cons, escaped]
    exact unesc_backslash_cons (by decide) _

/-- Reading escaped text back collapses exactly the unprotected pairs. -/
theorem unesc_esc (text : Bytes) :
    unesc (esc text) = collapse Byte.backslash lineBreakTable text := by
  fun_induction collapse Byte.backslash lineBreakTable text with
  | case1 => rfl
  | case2 byte =>
      by_cases mark : byte = Byte.backslash
      · subst mark
        decide
      · simpa [unesc] using unesc_escByte_append mark []
  | case3 next rest symbol decoded ih =>
      have plain : escByte next = [next] := by
        rcases escByte_cases next with ⟨plain, -⟩ | ⟨letter, _, _, _⟩
        · exact plain
        · unfold lineBreakTable at decoded
          split at decoded
          · simp_all [escByte, Byte.letterN, Byte.newline, Byte.carriageReturn, Byte.pipe]
          · split at decoded
            · simp_all [escByte, Byte.letterR, Byte.newline, Byte.carriageReturn, Byte.pipe]
            · cases decoded
      have read : unescTable next = some symbol := by
        unfold lineBreakTable at decoded
        unfold unescTable
        split at decoded
        · simp_all
        · split at decoded
          · simp_all
          · cases decoded
      have backslash : escByte Byte.backslash = [Byte.backslash] := rfl
      rw [esc_cons, backslash, esc_cons, plain]
      simp only [List.singleton_append]
      rw [unesc_escape read, ih]
  | case4 next rest undecoded ih =>
      have backslash : escByte Byte.backslash = [Byte.backslash] := rfl
      rw [esc_cons, backslash, List.singleton_append, unesc_backslash_esc_cons undecoded, ih]
  | case5 byte next rest unmarked ih =>
      rw [esc_cons, unesc_escByte_append unmarked, ih]

/-- No backslash stands directly before the letter `n` or the letter `r`. -/
def EscapeFree (text : Bytes) : Prop :=
  ¬ [Byte.backslash, Byte.letterN] <:+: text ∧ ¬ [Byte.backslash, Byte.letterR] <:+: text

instance (text : Bytes) : Decidable (EscapeFree text) :=
  inferInstanceAs (Decidable (_ ∧ _))

theorem escapeFree_iff {text : Bytes} :
    EscapeFree text ↔ ∀ letter, (lineBreakTable letter).isSome →
      ¬ [Byte.backslash, letter] <:+: text := by
  constructor
  · intro breakFree letter decodable
    obtain ⟨noN, noR⟩ := breakFree
    unfold lineBreakTable at decodable
    split at decodable
    · rename_i same
      rwa [same]
    · split at decodable
      · rename_i same
        rwa [same]
      · cases decodable
  · intro plain
    exact ⟨plain _ (by decide), plain _ (by decide)⟩

/-- The round trip of one escaped string, with its exact domain. -/
theorem unesc_esc_eq_self_iff {text : Bytes} : unesc (esc text) = text ↔ EscapeFree text := by
  rw [unesc_esc, collapse_eq_self_iff, escapeFree_iff]

/-- No line break, and nothing that reads like the escape of one. -/
def Unbroken (text : Bytes) : Prop :=
  Byte.newline ∉ text ∧ Byte.carriageReturn ∉ text ∧ EscapeFree text

instance (text : Bytes) : Decidable (Unbroken text) := inferInstanceAs (Decidable (_ ∧ _))

theorem unbroken_iff {text : Bytes} :
    Unbroken text ↔ ∀ letter byte, lineBreakTable letter = some byte →
      byte ∉ text ∧ ¬ [Byte.backslash, letter] <:+: text := by
  constructor
  · intro unbroken letter byte decoded
    obtain ⟨noNewline, noReturn, breakFree⟩ := unbroken
    refine ⟨?_, escapeFree_iff.mp breakFree letter (by simp [decoded])⟩
    unfold lineBreakTable at decoded
    split_ifs at decoded
    · cases decoded
      exact noNewline
    · cases decoded
      exact noReturn
  · intro clean
    have newline := clean Byte.letterN Byte.newline (by decide)
    have carriageReturn := clean Byte.letterR Byte.carriageReturn (by decide)
    exact ⟨newline.1, carriageReturn.1, newline.2, carriageReturn.2⟩

/-- A line break and the text of its escape are written alike. -/
theorem esc_lineBreak {letter byte : UInt8} (decoded : lineBreakTable letter = some byte)
    (before after : Bytes) :
    esc (before ++ [Byte.backslash, letter] ++ after) = esc (before ++ [byte] ++ after) := by
  have alike : esc [Byte.backslash, letter] = esc [byte] := by
    unfold lineBreakTable at decoded
    split_ifs at decoded with isN isR
    · cases decoded
      rw [isN]
      decide
    · cases decoded
      rw [isR]
      decide
  rw [esc_append, esc_append, esc_append, esc_append, alike]

/-- The escape of a text belongs to no other text exactly when the text has no line break and
no backslash before the letter of one. -/
theorem esc_unique_iff {text : Bytes} :
    (∀ other, esc other = esc text → other = text) ↔ Unbroken text := by
  rw [unbroken_iff]
  constructor
  · intro unique letter byte decoded
    constructor
    · intro member
      obtain ⟨before, after, rfl⟩ := List.append_of_mem member
      have same := unique (before ++ [Byte.backslash, letter] ++ after) (by
        rw [esc_lineBreak decoded, List.append_assoc, List.singleton_append])
      have lengths := congrArg List.length same
      simp at lengths
    · intro inside
      obtain ⟨before, after, rfl⟩ := inside
      have same := unique _ (esc_lineBreak decoded before after).symm
      have lengths := congrArg List.length same
      simp at lengths
  · intro clean other same
    have read : collapse Byte.backslash lineBreakTable other = text := by
      rw [← unesc_esc, same, unesc_esc, collapse_eq_self_iff]
      intro letter decodable
      obtain ⟨byte, decoded⟩ := Option.isSome_iff_exists.mp decodable
      exact (clean letter byte decoded).2
    rw [← read]
    refine (collapse_eq_self_of_notMem fun letter byte decoded => ?_).symm
    rw [read]
    exact (clean letter byte decoded).1

theorem length_unesc_esc_le (text : Bytes) : (unesc (esc text)).length ≤ text.length := by
  rw [unesc_esc]
  exact length_collapse_le _ _ _

theorem length_unesc_esc_lt {text : Bytes} (changed : unesc (esc text) ≠ text) :
    (unesc (esc text)).length < text.length := by
  rw [unesc_esc] at changed ⊢
  exact length_collapse_lt_of_ne changed

theorem unesc_eq_self_iff {text : Bytes} (noPipe : Byte.pipe ∉ text) :
    unesc text = text ↔ EscapeFree text := by
  rw [unesc_eq_collapse, collapse_eq_self_iff, escapeFree_iff]
  constructor
  · intro plain letter decodable
    refine plain letter ?_
    unfold lineBreakTable at decodable
    unfold unescTable
    split_ifs at decodable ⊢ <;> simp_all
  · intro plain letter decodable inside
    by_cases isPipe : letter = Byte.pipe
    · exact noPipe (inside.subset (by simp [isPipe]))
    · refine plain letter ?_ inside
      unfold unescTable at decodable
      unfold lineBreakTable
      split_ifs at decodable ⊢ <;> simp_all

theorem length_unesc_le (text : Bytes) : (unesc text).length ≤ text.length := by
  rw [unesc_eq_collapse]
  exact length_collapse_le _ _ _

theorem mem_of_mem_unesc {text : Bytes} {byte : UInt8} (member : byte ∈ unesc text) :
    byte ∈ text ∨ byte = Byte.newline ∨ byte = Byte.carriageReturn ∨ byte = Byte.pipe := by
  rw [unesc_eq_collapse] at member
  refine (mem_collapse member).imp_right ?_
  intro escape
  obtain ⟨letter, decoded⟩ := escape
  unfold unescTable at decoded
  split_ifs at decoded <;> simp_all

theorem mem_esc_iff {text : Bytes} {byte : UInt8} (notNewline : byte ≠ Byte.newline)
    (notReturn : byte ≠ Byte.carriageReturn) (notBackslash : byte ≠ Byte.backslash)
    (notN : byte ≠ Byte.letterN) (notR : byte ≠ Byte.letterR) :
    byte ∈ esc text ↔ byte ∈ text := by
  induction text with
  | nil => simp
  | cons first rest ih =>
      have one : byte ∈ escByte first ↔ byte = first := by
        unfold escByte
        split_ifs with h1 h2 h3 <;> simp_all
      rw [esc_cons, List.mem_append, List.mem_cons, ih, one]

theorem comma_mem_esc_iff {text : Bytes} : Byte.comma ∈ esc text ↔ Byte.comma ∈ text :=
  mem_esc_iff (by decide) (by decide) (by decide) (by decide) (by decide)

theorem equals_mem_esc_iff {text : Bytes} : Byte.equals ∈ esc text ↔ Byte.equals ∈ text :=
  mem_esc_iff (by decide) (by decide) (by decide) (by decide) (by decide)

theorem pipe_mem_esc_iff {text : Bytes} : Byte.pipe ∈ esc text ↔ Byte.pipe ∈ text :=
  mem_esc_iff (by decide) (by decide) (by decide) (by decide) (by decide)

theorem eq_of_lineBreak {letter byte : UInt8} (decoded : lineBreakTable letter = some byte) :
    byte = Byte.newline ∨ byte = Byte.carriageReturn := by
  unfold lineBreakTable at decoded
  split_ifs at decoded
  · exact .inl (Option.some.inj decoded).symm
  · exact .inr (Option.some.inj decoded).symm

theorem lineBreak_notMem_esc {letter byte : UInt8} (decoded : lineBreakTable letter = some byte)
    (text : Bytes) : byte ∉ esc text := by
  have broken := eq_of_lineBreak decoded
  intro member
  obtain ⟨first, -, inside⟩ := List.mem_flatMap.mp member
  rcases escByte_cases first with ⟨plain, notNewline, notReturn, -⟩ | ⟨symbol, escaped, read, -⟩
  · rw [plain, List.mem_singleton] at inside
    rw [inside] at broken
    exact broken.elim notNewline notReturn
  · rw [escaped, List.mem_pair] at inside
    have printed : symbol ∈ [Byte.letterN, Byte.letterR, Byte.pipe] := by
      unfold unescTable at read
      split_ifs at read <;> simp_all
    have solid : ∀ mark ∈ [Byte.backslash, Byte.letterN, Byte.letterR, Byte.pipe],
        ¬ (mark = Byte.newline ∨ mark = Byte.carriageReturn) := by decide +kernel
    refine solid byte ?_ broken
    rcases inside with same | same
    · rw [same]
      exact .head _
    · rw [same]
      exact .tail _ printed

theorem newline_notMem_esc (text : Bytes) : Byte.newline ∉ esc text :=
  lineBreak_notMem_esc (by decide : lineBreakTable Byte.letterN = some _) text

theorem esc_unesc_of_plain {text : Bytes} (plain : ∀ byte ∈ text, escByte byte = [byte]) :
    esc (unesc text) = text := by
  fun_induction unesc text with
  | case1 => rfl
  | case2 byte => simp [plain]
  | case3 rest ih | case4 rest _ ih =>
      rw [List.forall_mem_cons, List.forall_mem_cons] at plain
      rw [esc_cons, ih plain.2.2]
      rfl
  | case5 rest _ _ _ => exact absurd (plain Byte.pipe (.tail _ (.head _))) (by decide)
  | case6 next rest _ _ _ ih | case7 byte next rest _ ih =>
      rw [List.forall_mem_cons] at plain
      rw [esc_cons, ih plain.2, plain.1, List.singleton_append]

theorem escByte_of_mem {text : Bytes} (noNewline : Byte.newline ∉ text)
    (noReturn : Byte.carriageReturn ∉ text) (noPipe : Byte.pipe ∉ text) {byte : UInt8}
    (member : byte ∈ text) : escByte byte = [byte] := by
  have other {mark : UInt8} (absent : mark ∉ text) : byte ≠ mark := by
    intro same
    exact absent (same ▸ member)
  rw [escByte, if_neg (other noNewline), if_neg (other noReturn), if_neg (other noPipe)]

/-- What is read of a text without line ends and bars is written as that text again, unless
there is a carriage return in it. -/
theorem esc_unesc_eq_self_iff {text : Bytes} (noNewline : Byte.newline ∉ text)
    (noPipe : Byte.pipe ∉ text) : esc (unesc text) = text ↔ Byte.carriageReturn ∉ text := by
  constructor
  · intro same
    rw [← same]
    exact lineBreak_notMem_esc (by decide : lineBreakTable Byte.letterR = some _) _
  · intro noReturn
    apply esc_unesc_of_plain
    intro byte member
    exact escByte_of_mem noNewline noReturn noPipe member

/-- What the escape is for, and for which texts it can be taken back. -/
theorem esc_codec (text : Bytes) :
    (unesc (esc text) = text ↔ ¬ [Byte.backslash, Byte.letterN] <:+: text ∧
      ¬ [Byte.backslash, Byte.letterR] <:+: text) ∧
      Byte.newline ∉ esc text ∧ Byte.carriageReturn ∉ esc text := by
  refine ⟨unesc_esc_eq_self_iff, newline_notMem_esc text, ?_⟩
  exact lineBreak_notMem_esc (by decide : lineBreakTable Byte.letterR = some _) text

/-- The white space that `esc` writes as it is: space, tab, vertical tab and
form feed. -/
def isblank (byte : UInt8) : Bool :=
  isspace byte && decide (byte ≠ Byte.newline) && decide (byte ≠ Byte.carriageReturn)

theorem rdropWhile_isspace_esc (text : Bytes) :
    (esc text).rdropWhile isspace = esc (text.rdropWhile isblank) := by
  induction text using List.reverseRecOn with
  | nil => rfl
  | append_singleton text last ih =>
      have single : esc [last] = escByte last := by simp
      rw [esc_append, single, List.rdropWhile_concat]
      rcases escByte_cases last with ⟨plain, notNewline, notReturn, -⟩ | ⟨letter, escaped, decoded, -⟩
      · have same : isblank last = isspace last := by simp [isblank, notNewline, notReturn]
        rw [plain, List.rdropWhile_concat, ih, same]
        split
        · rfl
        · rw [esc_append, single, plain]
      · have solid : isspace letter = false := by
          unfold unescTable at decoded
          split_ifs at decoded with h1 h2 h3
          · rw [h1]; decide
          · rw [h2]; decide
          · rw [h3]; decide
        have kept : isblank last = false := by
          unfold unescTable at decoded
          split_ifs at decoded <;> cases decoded <;> decide
        have shape : esc text ++ [Byte.backslash, letter] =
            (esc text ++ [Byte.backslash]) ++ [letter] := by simp
        rw [escaped, shape, List.rdropWhile_concat_neg _ _ _ (by simp [solid]),
          if_neg (by simp [kept]), esc_append, single, escaped]
        simp

end ChaosLab

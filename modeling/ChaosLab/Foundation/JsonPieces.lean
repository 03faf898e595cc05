import ChaosLab.Foundation.Delimited
import ChaosLab.Foundation.JsonText

/-! JSON texts put together from pieces. Of every piece it is known when the parser reads it as
what it is meant to be; the same is then known of the whole text. -/

set_option autoImplicit false

namespace Foundation.Json

theorem skipSpace_cons {first : UInt8} (visible : isSpace first = false) (rest : List UInt8) :
    skipSpace (first :: rest) = first :: rest := by
  rw [skipSpace, List.dropWhile_cons, visible]
  rfl

theorem expect_cons_self (byte : UInt8) (rest : List UInt8) :
    expect byte (byte :: rest) = some rest := by
  rw [expect, if_pos rfl]

theorem expect_cons_of_ne {byte first : UInt8} (different : first ≠ byte) (rest : List UInt8) :
    expect byte (first :: rest) = none := by
  rw [expect, if_neg different]

/-- A text, what it is meant to be read as, and when it is. -/
structure Piece (Item : Type) where
  text : List UInt8
  meaning : Item
  faithful : Prop

variable {Item : Type} {item : List UInt8 → Option (Item × List UInt8)}

/-- The reader takes the piece, up to the delimiter after it, for what it is meant to be exactly
when the piece is faithful. -/
def Reads (item : List UInt8 → Option (Item × List UInt8)) (piece : Piece Item) : Prop :=
  ∀ next ∈ [comma, closeBracket, closeBrace], ∀ rest left,
    item (piece.text ++ next :: rest) = some (piece.meaning, left) ↔
      piece.faithful ∧ left = next :: rest

def joined (pieces : List (Piece Item)) : List UInt8 := [comma].intercalate (pieces.map Piece.text)

theorem joined_singleton (piece : Piece Item) : joined [piece] = piece.text := by
  simp [joined]

theorem joined_cons_cons (first second : Piece Item) (others : List (Piece Item)) :
    joined (first :: second :: others) = first.text ++ comma :: joined (second :: others) := by
  simp [joined]

theorem joined_cons (first : Piece Item) (others : List (Piece Item)) :
    joined (first :: others) =
      first.text ++ others.flatMap fun piece => comma :: piece.text := by
  rw [joined, List.map_cons, intercalate_cons, List.flatMap_map]
  rfl

/-- A loop that writes a comma before every piece but the first. -/
theorem joined_map_eq_loop {Entry : Type} {piece : Entry → Piece Item}
    {loop : Bool → List Entry → List UInt8} (done : ∀ first, loop first [] = [])
    (next : ∀ first entry entries, loop first (entry :: entries) =
      (if first then [] else [comma]) ++ (piece entry).text ++ loop false entries)
    (entries : List Entry) : joined (entries.map piece) = loop true entries := by
  rw [joined, List.map_map]
  exact intercalate_map_eq_loop done next entries

theorem length_le_joined (pieces : List (Piece Item)) :
    pieces.length ≤ (joined pieces).length + 1 := by
  induction pieces with
  | nil => simp
  | cons first others ih =>
      cases others with
      | nil => simp
      | cons second others =>
          simp only [joined_cons_cons, List.length_append, List.length_cons] at ih ⊢
          omega

theorem sequence_eq_some_iff {close : UInt8} {fuel : Nat} {text left : List UInt8} {first : Item}
    {others : List Item} :
    sequence item close (fuel + 1) text = some (first :: others, left) ↔
      ∃ after, item text = some (first, after) ∧
        (expect close (skipSpace after) = some left ∧ others = [] ∨
          expect close (skipSpace after) = none ∧ ∃ more,
            expect comma (skipSpace after) = some more ∧
              sequence item close fuel more = some (others, left)) := by
  rw [sequence]
  cases read : item text with
  | none => simp
  | some found =>
      obtain ⟨value, after⟩ := found
      by_cases same : value = first
      · subst same
        cases closed : expect close (skipSpace after) with
        | some final => simp [closed, and_comm, eq_comm]
        | none => simp [closed, Option.bind_eq_some_iff]
      · cases closed : expect close (skipSpace after) with
        | some final => simp [closed, same]
        | none => simp [closed, same, Option.bind_eq_some_iff]

/-- The piece before a closing byte, and a piece before a comma. -/
theorem sequence_closed_iff {close : UInt8} (closes : close = closeBracket ∨ close = closeBrace)
    {piece : Piece Item} (reads : Reads item piece) (fuel : Nat) (rest left : List UInt8)
    (others : List Item) :
    sequence item close (fuel + 1) (piece.text ++ close :: rest) =
        some (piece.meaning :: others, left) ↔ piece.faithful ∧ left = rest ∧ others = [] := by
  have delimiter : close ∈ [comma, closeBracket, closeBrace] := by
    rcases closes with rfl | rfl <;> simp
  have visible : isSpace close = false := by
    rcases closes with rfl | rfl <;> rfl
  rw [sequence_eq_some_iff]
  constructor
  · intro parsed
    obtain ⟨after, first, found⟩ := parsed
    obtain ⟨faithful, rfl⟩ := (reads close delimiter rest after).mp first
    rw [skipSpace_cons visible, expect_cons_self] at found
    rcases found with closed | further
    · exact ⟨faithful, (Option.some.inj closed.1).symm, closed.2⟩
    · cases further.1
  · intro faithful
    refine ⟨close :: rest, (reads close delimiter rest _).mpr ⟨faithful.1, rfl⟩, .inl ?_⟩
    rw [skipSpace_cons visible, expect_cons_self, faithful.2.1]
    exact ⟨rfl, faithful.2.2⟩

theorem sequence_comma_iff {close : UInt8} (closes : close = closeBracket ∨ close = closeBrace)
    {piece : Piece Item} (reads : Reads item piece) (fuel : Nat) (rest left : List UInt8)
    (others : List Item) :
    sequence item close (fuel + 1) (piece.text ++ comma :: rest) =
        some (piece.meaning :: others, left) ↔
      piece.faithful ∧ sequence item close fuel rest = some (others, left) := by
  have unlike : comma ≠ close := by
    rcases closes with rfl | rfl <;> decide
  rw [sequence_eq_some_iff]
  constructor
  · intro parsed
    obtain ⟨after, first, found⟩ := parsed
    obtain ⟨faithful, rfl⟩ := (reads comma (List.mem_cons_self ..) rest after).mp first
    rw [skipSpace_cons rfl, expect_cons_of_ne unlike, expect_cons_self] at found
    rcases found with closed | further
    · cases closed.1
    · obtain ⟨-, more, next, final⟩ := further
      cases next
      exact ⟨faithful, final⟩
  · intro faithful
    refine ⟨comma :: rest, (reads comma (List.mem_cons_self ..) rest _).mpr ⟨faithful.1, rfl⟩,
      .inr ?_⟩
    rw [skipSpace_cons rfl, expect_cons_of_ne unlike, expect_cons_self]
    exact ⟨rfl, rest, rfl, faithful.2⟩

theorem sequence_iff {close : UInt8} (closes : close = closeBracket ∨ close = closeBrace)
    {pieces : List (Piece Item)} (nonempty : pieces ≠ [])
    (reads : ∀ piece ∈ pieces, Reads item piece) {fuel : Nat} (enough : pieces.length ≤ fuel)
    (rest left : List UInt8) :
    sequence item close fuel (joined pieces ++ close :: rest) =
        some (pieces.map Piece.meaning, left) ↔
      (∀ piece ∈ pieces, piece.faithful) ∧ left = rest := by
  induction pieces generalizing fuel with
  | nil => contradiction
  | cons first others ih =>
      obtain ⟨fuel, rfl⟩ : ∃ more, fuel = more + 1 :=
        Nat.exists_eq_succ_of_ne_zero (Nat.ne_of_gt (Nat.lt_of_lt_of_le (Nat.succ_pos _) enough))
      rw [List.forall_mem_cons] at reads ⊢
      rw [List.map_cons]
      cases others with
      | nil =>
          rw [joined, List.map_singleton, List.intercalate_singleton,
            sequence_closed_iff closes reads.1]
          simp
      | cons second others =>
          rw [joined_cons_cons, List.append_assoc, List.cons_append,
            sequence_comma_iff closes reads.1, ih (by simp) reads.2 (Nat.le_of_succ_le_succ enough),
            and_assoc]

/-- The text starts with what neither is skipped nor ends an array or an object. -/
def Opens (text : List UInt8) : Prop :=
  ∃ first rest, text = first :: rest ∧ isSpace first = false ∧ first ≠ closeBracket ∧
    first ≠ closeBrace

theorem Opens.append {text : List UInt8} (opens : Opens text) (rest : List UInt8) :
    Opens (text ++ rest) := by
  obtain ⟨first, more, rfl, visible⟩ := opens
  exact ⟨first, more ++ rest, rfl, visible⟩

theorem Opens.skipSpace_eq {text : List UInt8} (opens : Opens text) : skipSpace text = text := by
  obtain ⟨first, more, rfl, visible, -⟩ := opens
  exact skipSpace_cons visible more

theorem opens_joined {pieces : List (Piece Item)} (nonempty : pieces ≠ [])
    (opens : ∀ piece ∈ pieces, Opens piece.text) : Opens (joined pieces) := by
  cases pieces with
  | nil => contradiction
  | cons first others =>
      have starts := opens first (List.mem_cons_self ..)
      cases others with
      | nil => simpa [joined] using starts
      | cons second others =>
          rw [joined_cons_cons]
          exact starts.append _

theorem bracketed_iff {close : UInt8} (closes : close = closeBracket ∨ close = closeBrace)
    {pieces : List (Piece Item)} (opens : ∀ piece ∈ pieces, Opens piece.text)
    (reads : ∀ piece ∈ pieces, Reads item piece) (rest left : List UInt8) :
    bracketed item close (joined pieces ++ close :: rest) =
        some (pieces.map Piece.meaning, left) ↔
      (∀ piece ∈ pieces, piece.faithful) ∧ left = rest := by
  have visible : isSpace close = false := by
    rcases closes with rfl | rfl <;> rfl
  rw [bracketed]
  cases pieces with
  | nil =>
      rw [joined, List.map_nil, List.intercalate_nil, List.nil_append, skipSpace_cons visible,
        expect_cons_self]
      simp [eq_comm]
  | cons first others =>
      have nonempty : first :: others ≠ [] := List.cons_ne_nil _ _
      have unclosed : expect close (skipSpace (joined (first :: others) ++ close :: rest)) = none := by
        have starts := (opens_joined nonempty opens).append (close :: rest)
        rw [starts.skipSpace_eq]
        obtain ⟨byte, more, same, -, notBracket, notBrace⟩ := starts
        rw [same]
        apply expect_cons_of_ne
        rcases closes with rfl | rfl
        · exact notBracket
        · exact notBrace
      rw [unclosed]
      apply sequence_iff closes nonempty reads
      have lengths := length_le_joined (first :: others)
      simp only [List.length_append, List.length_cons] at lengths ⊢
      omega

namespace Piece

def array (pieces : List (Piece Value)) : Piece Value where
  text := openBracket :: joined pieces ++ [closeBracket]
  meaning := .array (pieces.map meaning)
  faithful := ∀ piece ∈ pieces, piece.faithful

def object (pieces : List (Piece (List UInt8 × Value))) : Piece Value where
  text := openBrace :: joined pieces ++ [closeBrace]
  meaning := .object (pieces.map meaning)
  faithful := ∀ piece ∈ pieces, piece.faithful

/-- The name is written as it is. -/
def named (name : List UInt8) (piece : Piece Value) : Piece (List UInt8 × Value) where
  text := quote :: name ++ quote :: colon :: piece.text
  meaning := (name, piece.meaning)
  faithful := Plain name ∧ piece.faithful

/-- The content is written with escapes. -/
def string (written content : List UInt8) : Piece Value where
  text := quote :: written ++ [quote]
  meaning := .string content
  faithful := True

def number (digits : List UInt8) : Piece Value where
  text := digits
  meaning := .number (digitsValue digits)
  faithful := True

end Piece

theorem map_bracketed_iff {close : UInt8} (closes : close = closeBracket ∨ close = closeBrace)
    {wrap : List Item → Value} (injective : Function.Injective wrap)
    {pieces : List (Piece Item)} (opens : ∀ piece ∈ pieces, Opens piece.text)
    (reads : ∀ piece ∈ pieces, Reads item piece) (rest left : List UInt8) :
    ((bracketed item close (joined pieces ++ close :: rest)).map fun read =>
        (wrap read.1, read.2)) = some (wrap (pieces.map Piece.meaning), left) ↔
      (∀ piece ∈ pieces, piece.faithful) ∧ left = rest := by
  rw [← bracketed_iff closes opens reads rest left, Option.map_eq_some_iff]
  constructor
  · intro found
    obtain ⟨⟨items, after⟩, parsed, same⟩ := found
    obtain ⟨wrapped, rest⟩ := Prod.mk.inj same
    have read : items = pieces.map Piece.meaning := injective wrapped
    rw [parsed, read, ← rest]
  · intro parsed
    exact ⟨_, parsed, rfl⟩

theorem value_array_iff {depth : Nat} {pieces : List (Piece Value)}
    (opens : ∀ piece ∈ pieces, Opens piece.text)
    (reads : ∀ piece ∈ pieces, Reads (element (value depth)) piece) (rest left : List UInt8) :
    value (depth + 1) ((Piece.array pieces).text ++ rest) =
        some ((Piece.array pieces).meaning, left) ↔
      (Piece.array pieces).faithful ∧ left = rest := by
  have text : (Piece.array pieces).text ++ rest =
      openBracket :: (joined pieces ++ closeBracket :: rest) := by
    simp [Piece.array]
  rw [text, value, if_neg (by decide), if_neg (by decide), if_pos rfl]
  exact map_bracketed_iff (.inl rfl) (fun _ _ => Value.array.inj) opens reads rest left

theorem value_object_iff {depth : Nat} {pieces : List (Piece (List UInt8 × Value))}
    (opens : ∀ piece ∈ pieces, Opens piece.text)
    (reads : ∀ piece ∈ pieces, Reads (member (value depth)) piece) (rest left : List UInt8) :
    value (depth + 1) ((Piece.object pieces).text ++ rest) =
        some ((Piece.object pieces).meaning, left) ↔
      (Piece.object pieces).faithful ∧ left = rest := by
  have text : (Piece.object pieces).text ++ rest =
      openBrace :: (joined pieces ++ closeBrace :: rest) := by
    simp [Piece.object]
  rw [text, value, if_neg (by decide), if_pos rfl]
  exact map_bracketed_iff (.inr rfl) (fun _ _ => Value.object.inj) opens reads rest left

theorem reads_element {reader : List UInt8 → Option (Value × List UInt8)} {piece : Piece Value}
    (opens : Opens piece.text) (reads : Reads reader piece) : Reads (element reader) piece := by
  intro next delimiter rest left
  rw [element, (opens.append _).skipSpace_eq]
  exact reads next delimiter rest left

theorem opens_named (name : List UInt8) (piece : Piece Value) :
    Opens (Piece.named name piece).text :=
  ⟨quote, _, rfl, by decide⟩

/-- A name with something to escape in it is never read as itself before another string. -/
theorem string_named_iff {name : List UInt8} {piece : Piece Value}
    (clear : Plain name ∨ piece.text.head? = some quote) {fuel : Nat}
    (enough : name.length < fuel) (rest left : List UInt8) :
    string fuel (name ++ quote :: colon :: (piece.text ++ rest)) = some (name, left) ↔
      Plain name ∧ left = colon :: (piece.text ++ rest) := by
  cases clear with
  | inl plain =>
      rw [string_plain plain _ enough]
      simp [plain, eq_comm]
  | inr quoted =>
      obtain ⟨text, same⟩ := List.head?_eq_some_iff.mp quoted
      rw [same]
      exact string_name_iff enough

theorem reads_named {reader : List UInt8 → Option (Value × List UInt8)} {name : List UInt8}
    {piece : Piece Value} (clear : Plain name ∨ piece.text.head? = some quote)
    (opens : Opens piece.text) (reads : Reads reader piece) :
    Reads (member reader) (Piece.named name piece) := by
  intro next delimiter rest left
  have text : (Piece.named name piece).text ++ next :: rest =
      quote :: (name ++ quote :: colon :: (piece.text ++ next :: rest)) := by
    simp [Piece.named]
  have enough : name.length <
      (name ++ quote :: colon :: (piece.text ++ next :: rest)).length := by
    simp only [List.length_append, List.length_cons]
    omega
  have named := string_named_iff clear enough (next :: rest)
  rw [text, member, skipSpace_cons rfl, expect_cons_self]
  simp only [Option.bind_eq_bind, Option.bind_some, Option.bind_eq_some_iff, Option.pure_def,
    Option.some.injEq, Prod.mk.injEq, Prod.exists]
  constructor
  · intro found
    obtain ⟨read, after, parsed, more, separated, amount, final, last, same, rfl⟩ := found
    obtain ⟨rfl, rfl⟩ := Prod.mk.inj same
    obtain ⟨plain, rfl⟩ := (named after).mp parsed
    rw [skipSpace_cons rfl, expect_cons_self] at separated
    cases separated
    rw [(opens.append _).skipSpace_eq] at last
    obtain ⟨faithful, rest⟩ := (reads next delimiter _ _).mp last
    exact ⟨⟨plain, faithful⟩, rest⟩
  · intro faithful
    obtain ⟨⟨plain, faithful⟩, rfl⟩ := faithful
    refine ⟨name, _, (named _).mpr ⟨plain, rfl⟩, piece.text ++ next :: rest, ?_,
      piece.meaning, next :: rest, ?_, rfl, rfl⟩
    · rw [skipSpace_cons rfl, expect_cons_self]
    · rw [(opens.append _).skipSpace_eq]
      exact (reads next delimiter _ _).mpr ⟨faithful, rfl⟩

/-- What stands between quotation marks is read as this content. -/
def Encodes (written content : List UInt8) : Prop :=
  ∀ rest fuel, written.length < fuel →
    string fuel (written ++ quote :: rest) = some (content, rest)

theorem reads_string {written content : List UInt8} (encodes : Encodes written content)
    (depth : Nat) : Reads (value (depth + 1)) (Piece.string written content) := by
  intro next delimiter rest left
  have text : (Piece.string written content).text ++ next :: rest =
      quote :: (written ++ quote :: next :: rest) := by
    simp [Piece.string]
  rw [text, value, if_pos rfl, encodes (next :: rest) _ (by simp)]
  simp [Piece.string, eq_comm]

theorem digits_append {run : List UInt8} (nonempty : run ≠ []) (all : ∀ byte ∈ run, isDigit byte)
    {next : UInt8} (stop : isDigit next = false) (rest : List UInt8) :
    digits (run ++ next :: rest) = some (run, next :: rest) := by
  have taken : (run ++ next :: rest).takeWhile isDigit = run := by
    rw [List.takeWhile_append_of_pos all, List.takeWhile_cons, stop]
    simp
  have dropped : (run ++ next :: rest).dropWhile isDigit = next :: rest := by
    rw [List.dropWhile_append_of_pos all, List.dropWhile_cons, stop]
    simp
  rw [digits, taken, dropped, if_neg nonempty]

/-- A whole number without a sign. -/
theorem unsignedNumber_append {run : List UInt8} (nonempty : run ≠ [])
    (all : ∀ byte ∈ run, isDigit byte) (lead : run.head? = some 0x30 → run = [0x30])
    {next : UInt8} (delimiter : next ∈ [comma, closeBracket, closeBrace]) (rest : List UInt8) :
    unsignedNumber (run ++ next :: rest) = some ((digitsValue run : ℚ), next :: rest) := by
  have stop : isDigit next = false ∧ next ≠ 0x2e ∧ ¬ (next = 0x65 ∨ next = 0x45) := by
    simp only [List.mem_cons, List.not_mem_nil, or_false] at delimiter
    rcases delimiter with rfl | rfl | rfl <;> decide
  have whole : integer (run ++ next :: rest) = some ((digitsValue run : ℚ), next :: rest) := by
    have single : ¬ (run.head? = some 0x30 ∧ run ≠ [0x30]) := fun zeros => zeros.2 (lead zeros.1)
    rw [integer, digits_append nonempty all stop.1]
    exact if_neg single
  have part : fraction (next :: rest) = some (0, next :: rest) := if_neg stop.2.1
  have factor : exponent (next :: rest) = some (1, next :: rest) := if_neg stop.2.2
  rw [unsignedNumber, whole]
  simp [part, factor]

theorem ne_of_isDigit {first byte : UInt8} (digit : isDigit first) (other : isDigit byte = false) :
    first ≠ byte := by
  intro same
  rw [same, other] at digit
  cases digit

theorem reads_number {run : List UInt8} (nonempty : run ≠ []) (all : ∀ byte ∈ run, isDigit byte)
    (lead : run.head? = some 0x30 → run = [0x30]) (depth : Nat) :
    Reads (value (depth + 1)) (Piece.number run) := by
  intro next delimiter rest left
  have number := unsignedNumber_append nonempty all lead delimiter rest
  cases run with
  | nil => contradiction
  | cons first run =>
      have unlike {byte : UInt8} (other : isDigit byte = false) : first ≠ byte :=
        ne_of_isDigit (all first (List.mem_cons_self ..)) other
      have word {letter : UInt8} (other : isDigit letter = false) (word : List UInt8) :
          ¬ letter :: word <+: first :: (run ++ next :: rest) := fun starts =>
        unlike other (List.cons_prefix_cons.mp starts).1.symm
      have unsigned : expect 0x2d (first :: (run ++ next :: rest)) = none :=
        expect_cons_of_ne (unlike rfl) _
      rw [List.cons_append] at number
      rw [Piece.number, List.cons_append, value, if_neg (unlike rfl), if_neg (unlike rfl),
        if_neg (unlike rfl), keyword, if_neg (word rfl _), if_neg (word rfl _),
        if_neg (word rfl _), Json.number, unsigned]
      simp [number, eq_comm]

theorem opens_array (pieces : List (Piece Value)) : Opens (Piece.array pieces).text :=
  ⟨openBracket, _, rfl, by decide⟩

theorem opens_object (pieces : List (Piece (List UInt8 × Value))) :
    Opens (Piece.object pieces).text :=
  ⟨openBrace, _, rfl, by decide⟩

theorem opens_string (written content : List UInt8) :
    Opens (Piece.string written content).text :=
  ⟨quote, _, rfl, by decide⟩

theorem opens_number {run : List UInt8} (nonempty : run ≠ [])
    (all : ∀ byte ∈ run, isDigit byte) : Opens (Piece.number run).text := by
  cases run with
  | nil => contradiction
  | cons first run =>
      have unlike {byte : UInt8} (other : isDigit byte = false) : first ≠ byte :=
        ne_of_isDigit (all first (List.mem_cons_self ..)) other
      refine ⟨first, run, rfl, ?_, unlike rfl, unlike rfl⟩
      simp only [isSpace, Bool.or_eq_false_iff, beq_eq_false_iff_ne]
      exact ⟨⟨⟨unlike rfl, unlike rfl⟩, unlike rfl⟩, unlike rfl⟩

/-- A whole text that is one array. -/
theorem parse_array_iff {depth : Nat} {pieces : List (Piece Value)}
    (size : (Piece.array pieces).text.length = depth + 1)
    (opens : ∀ piece ∈ pieces, Opens piece.text)
    (reads : ∀ piece ∈ pieces, Reads (element (value depth)) piece) :
    parse (Piece.array pieces).text = some (Piece.array pieces).meaning ↔
      (Piece.array pieces).faithful := by
  have whole (left : List UInt8) := value_array_iff opens reads [] left
  simp only [List.append_nil] at whole
  rw [parse, (opens_array pieces).skipSpace_eq, size]
  constructor
  · intro parsed
    cases read : value (depth + 1) (Piece.array pieces).text with
    | none => simp [read] at parsed
    | some found =>
        obtain ⟨result, left⟩ := found
        simp only [read] at parsed
        split_ifs at parsed
        cases parsed
        exact ((whole left).mp read).1
  · intro faithful
    rw [(whole []).mpr ⟨faithful, rfl⟩]
    rfl

section Characters

theorem utf8_cons {byte : UInt8} (ascii : byte < 0x80) {text : List UInt8} (valid : Utf8 text) :
    Utf8 (byte :: text) :=
  (utf8_singleton ascii).append valid

theorem utf8_joined {pieces : List (Piece Item)} (valid : ∀ piece ∈ pieces, Utf8 piece.text) :
    Utf8 (joined pieces) := by
  cases pieces with
  | nil => exact utf8_nil
  | cons first others =>
      rw [List.forall_mem_cons] at valid
      rw [joined_cons]
      apply valid.1.append
      replace valid := valid.2
      induction others with
      | nil => exact utf8_nil
      | cons second others ih =>
          rw [List.forall_mem_cons] at valid
          exact (utf8_cons (by decide) valid.1).append (ih valid.2)

theorem utf8_array {pieces : List (Piece Value)} (valid : ∀ piece ∈ pieces, Utf8 piece.text) :
    Utf8 (Piece.array pieces).text :=
  (utf8_cons (by decide) (utf8_joined valid)).append (utf8_singleton (by decide))

theorem utf8_object {pieces : List (Piece (List UInt8 × Value))}
    (valid : ∀ piece ∈ pieces, Utf8 piece.text) : Utf8 (Piece.object pieces).text :=
  (utf8_cons (by decide) (utf8_joined valid)).append (utf8_singleton (by decide))

theorem utf8_named {name : List UInt8} {piece : Piece Value} (validName : Utf8 name)
    (valid : Utf8 piece.text) : Utf8 (Piece.named name piece).text :=
  (utf8_cons (by decide) validName).append (utf8_cons (by decide) (utf8_cons (by decide) valid))

theorem utf8_string {written : List UInt8} (valid : Utf8 written) (content : List UInt8) :
    Utf8 (Piece.string written content).text :=
  (utf8_cons (by decide) valid).append (utf8_singleton (by decide))

end Characters

end Foundation.Json

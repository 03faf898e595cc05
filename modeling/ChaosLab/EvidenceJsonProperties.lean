import ChaosLab.BytesProperties
import ChaosLab.EvidenceJson
import ChaosLab.Foundation.JsonPieces

/-! What a JSON parser makes of the JSON form of the evidence. -/

set_option autoImplicit false

namespace ChaosLab

open Foundation Foundation.Json

section Escapes

theorem hexDigit_getD {digit : Nat} (small : digit < 16) :
    hexDigit (hexDigits.getD digit 0) = some digit := by
  interval_cases digit <;> decide

theorem unicodeEscape_control {byte : UInt8} (control : byte < 0x20) (rest : Bytes) :
    unicodeEscape (Byte.zero :: Byte.zero :: hexDigits.getD ((byte >>> 4) &&& 15).toNat 0 ::
      hexDigits.getD (byte &&& 15).toNat 0 :: rest) = some ([byte], rest) := by
  have bound : byte.toNat < 32 := UInt8.lt_iff_toNat_lt.mp control
  have high : ((byte >>> 4) &&& 15).toNat = byte.toNat / 16 % 16 := by
    rw [UInt8.toNat_and, UInt8.toNat_shiftRight, Nat.shiftRight_eq_div_pow]
    exact Nat.and_two_pow_sub_one_eq_mod _ 4
  have low : (byte &&& 15).toNat = byte.toNat % 16 := by
    rw [UInt8.toNat_and]
    exact Nat.and_two_pow_sub_one_eq_mod _ 4
  have code : ofDigitsBE 16 [0, 0, byte.toNat / 16 % 16, byte.toNat % 16] = byte.toNat := by
    simp only [ofDigitsBE, List.foldl_cons, List.foldl_nil]
    omega
  have zero : hexDigit Byte.zero = some 0 := rfl
  rw [high, low, unicodeEscape, hex4, zero, hexDigit_getD (Nat.mod_lt _ (by decide)),
    hexDigit_getD (Nat.mod_lt _ (by decide))]
  simp only [Option.bind_eq_bind, Option.bind_some, Option.pure_def, code]
  rw [if_pos (.inl (by omega)), utf8_toNat (UInt8.lt_trans control (by decide))]

/-- An escaped byte is read as itself. -/
theorem string_jsonEscapeByte (byte : UInt8) (fuel : Nat) (rest : Bytes) :
    string (fuel + 1) (jsonEscapeByte byte ++ rest) =
      (string fuel rest).map fun read => (byte :: read.1, read.2) := by
  rw [jsonEscapeByte]
  split_ifs with quoted slashed control
  · rw [quoted]
    rfl
  · rw [slashed]
    rfl
  · have found : escape (Byte.letterU :: Byte.zero :: Byte.zero ::
        hexDigits.getD ((byte >>> 4) &&& 15).toNat 0 :: hexDigits.getD (byte &&& 15).toNat 0 ::
        rest) = some ([byte], rest) := unicodeEscape_control control rest
    exact string_backslash found fuel
  · exact string_cons quoted slashed control fuel rest

theorem length_jsonEscapeByte_pos (byte : UInt8) : 0 < (jsonEscapeByte byte).length := by
  rw [jsonEscapeByte]
  split_ifs <;> simp

theorem encodes_jsonEscape (text : Bytes) : Encodes (jsonEscape text) text := by
  intro rest fuel enough
  induction text generalizing fuel with
  | nil =>
      obtain ⟨fuel, rfl⟩ := Nat.exists_eq_add_of_lt enough
      simp [jsonEscape, string]
  | cons byte text ih =>
      have positive := length_jsonEscapeByte_pos byte
      rw [jsonEscape, List.flatMap_cons, List.length_append] at enough
      obtain ⟨fuel, rfl⟩ := Nat.exists_eq_succ_of_ne_zero (by omega : fuel ≠ 0)
      rw [jsonEscape, List.flatMap_cons, List.append_assoc, string_jsonEscapeByte]
      rw [← jsonEscape] at enough ⊢
      rw [ih fuel (by omega)]
      rfl

theorem jsonEscape_concat (text : Bytes) (last : UInt8) :
    jsonEscape (text ++ [last]) = jsonEscape text ++ jsonEscapeByte last := by
  simp [jsonEscape]

/-- How many backslashes a text ends with. -/
def backslashRun (text : Bytes) : Nat := (text.rtakeWhile (· = Byte.backslash)).length

theorem backslashRun_concat (text : Bytes) (last : UInt8) :
    backslashRun (text ++ [last]) =
      if last = Byte.backslash then backslashRun text + 1 else 0 := by
  by_cases mark : last = Byte.backslash
  · rw [backslashRun, List.rtakeWhile_concat_pos _ _ _ (by simpa using mark), if_pos mark]
    simp [backslashRun]
  · rw [backslashRun, List.rtakeWhile_concat_neg _ _ _ (by simpa using mark), if_neg mark]
    rfl

/-- Apart from the two marks, a byte is written without a quotation mark and does not end with
a backslash. -/
theorem jsonEscapeByte_cases (byte : UInt8) :
    jsonEscapeByte byte = [Byte.backslash, Byte.quote] ∨
    jsonEscapeByte byte = [Byte.backslash, Byte.backslash] ∨
    (Byte.quote ∉ jsonEscapeByte byte ∧
      ∃ start last, jsonEscapeByte byte = start ++ [last] ∧ last ≠ Byte.backslash) := by
  rw [jsonEscapeByte]
  split_ifs with quoted slashed control
  · exact .inl rfl
  · exact .inr (.inl rfl)
  · have digits : ∀ byte : UInt8, byte < 0x20 →
        Byte.quote ∉ [Byte.backslash, Byte.letterU, Byte.zero, Byte.zero,
          hexDigits.getD ((byte >>> 4) &&& 15).toNat 0, hexDigits.getD (byte &&& 15).toNat 0] ∧
        hexDigits.getD (byte &&& 15).toNat 0 ≠ Byte.backslash := by decide +kernel
    obtain ⟨noQuote, solid⟩ := digits byte control
    exact .inr (.inr ⟨noQuote, [_, _, _, _, _], _, rfl, solid⟩)
  · refine .inr (.inr ⟨?_, [], byte, rfl, slashed⟩)
    intro member
    exact quoted (List.mem_singleton.mp member).symm

/-- Backslashes that nothing else follows come in pairs. -/
theorem even_backslashRun (text : Bytes) : Even (backslashRun (jsonEscape text)) := by
  induction text using List.reverseRecOn with
  | nil => exact ⟨0, rfl⟩
  | append_singleton text last ih =>
      rw [jsonEscape_concat]
      rcases jsonEscapeByte_cases last with quoted | slashed | ⟨-, start, final, written, solid⟩
      · rw [quoted, List.append_cons, backslashRun_concat, if_neg (by decide)]
        exact ⟨0, rfl⟩
      · rw [slashed, List.append_cons, backslashRun_concat, backslashRun_concat, if_pos rfl,
          if_pos rfl]
        exact ih.add even_two
      · rw [written, ← List.append_assoc, backslashRun_concat, if_neg solid]
        exact ⟨0, rfl⟩

theorem eq_backslash_of_jsonEscapeByte {byte : UInt8} {more after : Bytes}
    (found : jsonEscapeByte byte = more ++ Byte.quote :: after) : more = [Byte.backslash] := by
  have inside : Byte.quote ∈ jsonEscapeByte byte := by
    rw [found]
    exact List.mem_append_right _ (.head _)
  have apart : Byte.quote ≠ Byte.backslash := by decide
  rcases jsonEscapeByte_cases byte with quoted | slashed | ⟨noQuote, -⟩
  · rw [quoted] at found
    cases more with
    | nil => exact absurd (List.cons.inj found).1.symm apart
    | cons first more =>
        obtain ⟨first, rest⟩ := List.cons.inj found
        cases more with
        | nil => rw [← first]
        | cons second more =>
            have lengths := congrArg List.length rest
            simp at lengths
  · rw [slashed, List.mem_pair, or_self] at inside
    exact absurd inside apart
  · exact absurd inside noQuote

theorem odd_backslashRun {text before after : Bytes}
    (found : jsonEscape text = before ++ Byte.quote :: after) : Odd (backslashRun before) := by
  induction text using List.reverseRecOn generalizing after with
  | nil =>
      have lengths := congrArg List.length found
      simp [jsonEscape] at lengths
  | append_singleton text last ih =>
      rw [jsonEscape_concat, List.append_eq_append_iff] at found
      rcases found with ⟨more, whole, final⟩ | ⟨more, whole, final⟩
      · rw [whole, eq_backslash_of_jsonEscapeByte final, backslashRun_concat, if_pos rfl]
        exact (even_backslashRun text).add_one
      · cases more with
        | nil =>
            have same : [] = [Byte.backslash] := eq_backslash_of_jsonEscapeByte final.symm
            cases same
        | cons first more =>
            rw [(List.cons.inj final).1] at ih
            exact ih whole

theorem jsonEscapeByte_of_le {byte : UInt8} (high : 0x80 ≤ byte) : jsonEscapeByte byte = [byte] := by
  have printable : ¬ byte < 0x20 := by
    rw [UInt8.not_lt]
    exact UInt8.le_trans (by decide) high
  have other {mark : UInt8} (low : mark < 0x80) : byte ≠ mark := by
    intro same
    rw [same] at high
    exact UInt8.not_lt.mpr high low
  rw [jsonEscapeByte, if_neg (other (by decide)), if_neg (other (by decide)), if_neg printable]

theorem printable_of_mem_jsonEscape {text : Bytes} {byte : UInt8}
    (member : byte ∈ jsonEscape text) : 0x20 ≤ byte := by
  obtain ⟨first, -, inside⟩ := List.mem_flatMap.mp member
  have printable : ∀ first : UInt8, (jsonEscapeByte first).all (0x20 ≤ ·) = true := by
    decide +kernel
  exact of_decide_eq_true (List.all_eq_true.mp (printable first) byte inside)

theorem getD_hexDigits_lt (digit : Nat) : hexDigits.getD digit 0 < 0x80 := by
  by_cases small : digit < 16
  · interval_cases digit <;> decide
  · rw [List.getD_eq_default _ _ (Nat.le_of_not_lt small)]
    decide

theorem utf8_jsonEscape {text : Bytes} (valid : Utf8 text) : Utf8 (jsonEscape text) := by
  apply valid.flatMap
  · intro byte single
    rw [jsonEscapeByte]
    split_ifs
    · exact utf8_ascii (by decide)
    · exact utf8_ascii (by decide)
    · apply utf8_ascii
      simp only [List.all_cons, getD_hexDigits_lt]
      decide
    · exact utf8_singleton single
  · intro byte high
    exact jsonEscapeByte_of_le high

/-- The escaped text can stand between quotation marks, and a reader of JSON finds the text
in it. -/
theorem jsonEscape_invertible (text : Bytes) :
    (∀ byte ∈ jsonEscape text, ¬ byte < 0x20) ∧
      (∀ before after, jsonEscape text = before ++ Byte.quote :: after →
        Odd (backslashRun before)) ∧
      (∀ rest fuel, (jsonEscape text).length < fuel →
        string fuel (jsonEscape text ++ Byte.quote :: rest) = some (text, rest)) ∧
      ∀ before byte after, text = before ++ byte :: after → 0x80 ≤ byte →
        jsonEscape text = jsonEscape before ++ byte :: jsonEscape after := by
  refine ⟨?_, fun before after => odd_backslashRun, encodes_jsonEscape text, ?_⟩
  · intro byte member
    exact UInt8.not_lt.mpr (printable_of_mem_jsonEscape member)
  · intro before byte after whole high
    rw [whole, jsonEscape, List.flatMap_append, List.flatMap_cons, jsonEscapeByte_of_le high]
    rfl

end Escapes

section Records

/-- What the JSON form of a record is to be read as. -/
def recordValue (ev : EvidenceRecord) : Value :=
  .object [
    (ascii "id", .number ev.id.toNat),
    (ascii "seq", .number ev.seq.toInt),
    (ascii "kind", .string (evidenceKindName ev.kind)),
    (ascii "phase", .string ev.phase),
    (ascii "timestamp_ns", .number ev.timestampNs.toNat),
    (ascii "fields", .object (ev.fields.toList.map fun entry => (entry.1, .string entry.2))),
    (ascii "payload", .string ev.payload)]

def evidenceValue (records : List EvidenceRecord) : Value := .array (records.map recordValue)

def fieldPiece (name text : Bytes) : Piece (Bytes × Value) :=
  .named name (.string (jsonEscape text) text)

def numberPiece (name : Bytes) (v : UInt64) : Piece (Bytes × Value) :=
  .named name (.number (toString v))

def fieldsPiece (fields : Fields) : Piece Value :=
  .object (fields.toList.map fun entry => fieldPiece entry.1 entry.2)

def recordPiece (ev : EvidenceRecord) : Piece Value :=
  .object [
    numberPiece (ascii "id") ev.id,
    numberPiece (ascii "seq") ev.seq.toUInt64,
    fieldPiece (ascii "kind") (evidenceKindName ev.kind),
    fieldPiece (ascii "phase") ev.phase,
    numberPiece (ascii "timestamp_ns") ev.timestampNs,
    .named (ascii "fields") (fieldsPiece ev.fields),
    fieldPiece (ascii "payload") ev.payload]

theorem text_fieldPiece (name text : Bytes) : (fieldPiece name text).text = jsonField name text := by
  simp [fieldPiece, Piece.named, Piece.string, jsonField, Byte.quote, quote, Byte.colon, colon]

theorem text_numberPiece (name : Bytes) (v : UInt64) :
    (numberPiece name v).text = jsonNumber name v := by
  simp [numberPiece, Piece.named, Piece.number, jsonNumber, Byte.quote, quote, Byte.colon, colon]

theorem joined_fieldPiece (entries : List (Bytes × Bytes)) :
    joined (entries.map fun entry => fieldPiece entry.1 entry.2) = jsonFields true entries := by
  apply joined_map_eq_loop
  · exact fun _ => rfl
  · intro first entry entries
    rw [text_fieldPiece]
    rfl

theorem text_fieldsPiece (fields : Fields) :
    (Piece.named (ascii "fields") (fieldsPiece fields)).text =
      [Byte.quote] ++ ascii "fields" ++ [Byte.quote] ++ [Byte.colon] ++ [Byte.openBrace] ++
        jsonFields true fields.toList ++ [Byte.closeBrace] := by
  rw [fieldsPiece, Piece.named, Piece.object, joined_fieldPiece]
  simp [Byte.quote, quote, Byte.colon, colon, Byte.openBrace, openBrace, Byte.closeBrace,
    closeBrace]

theorem text_recordPiece (ev : EvidenceRecord) : (recordPiece ev).text = jsonRecord ev := by
  rw [recordPiece, Piece.object]
  dsimp only
  simp only [joined_cons_cons, joined_singleton, text_numberPiece, text_fieldPiece,
    text_fieldsPiece]
  rw [show openBrace = Byte.openBrace from rfl, show closeBrace = Byte.closeBrace from rfl,
    show comma = Byte.comma from rfl]
  unfold jsonRecord
  simp only [List.append_assoc, List.cons_append, List.nil_append]

theorem joined_recordPiece (records : List EvidenceRecord) :
    joined (records.map recordPiece) = jsonRecords true records := by
  apply joined_map_eq_loop
  · exact fun _ => rfl
  · intro first ev records
    rw [text_recordPiece, jsonRecords]
    rfl

theorem digitsValue_toString (v : UInt64) : digitsValue (toString v) = v.toNat :=
  decimalValue_decimal v.toNat

theorem meaning_recordPiece {ev : EvidenceRecord} (nonnegative : 0 ≤ ev.seq) :
    (recordPiece ev).meaning = recordValue ev := by
  have seq : ((ev.seq.toUInt64.toNat : ℚ)) = ev.seq.toInt := by
    have positive : 0 ≤ ev.seq.toInt := Int64.le_iff_toInt_le.mp nonnegative
    rw [Int64.toNat_toUInt64_of_le nonnegative, ← Int64.toNat_toInt]
    exact_mod_cast congrArg (Int.cast (R := ℚ)) (Int.toNat_of_nonneg positive)
  simp [recordPiece, recordValue, fieldsPiece, fieldPiece, numberPiece, Piece.object, Piece.named,
    Piece.string, Piece.number, digitsValue_toString, seq]

theorem faithful_fieldsPiece_iff (fields : Fields) :
    (fieldsPiece fields).faithful ↔ ∀ entry ∈ fields.toList, Plain entry.1 := by
  rw [fieldsPiece, Piece.object, List.forall_mem_map]
  simp [fieldPiece, Piece.named, Piece.string]

theorem faithful_recordPiece_iff (ev : EvidenceRecord) :
    (recordPiece ev).faithful ↔ ∀ entry ∈ ev.fields.toList, Plain entry.1 := by
  have plain : Plain (ascii "id") ∧ Plain (ascii "seq") ∧ Plain (ascii "kind") ∧
      Plain (ascii "phase") ∧ Plain (ascii "timestamp_ns") ∧ Plain (ascii "fields") ∧
      Plain (ascii "payload") := by decide
  rw [← faithful_fieldsPiece_iff]
  simp [recordPiece, fieldPiece, numberPiece, Piece.object, Piece.named, Piece.string,
    Piece.number, plain]

theorem reads_fieldPiece (name text : Bytes) (depth : Nat) :
    Reads (member (value (depth + 1))) (fieldPiece name text) :=
  reads_named (.inr rfl) (opens_string _ _) (reads_string (encodes_jsonEscape text) depth)

theorem reads_numberPiece {name : Bytes} (plain : Plain name) (v : UInt64) (depth : Nat) :
    Reads (member (value (depth + 1))) (numberPiece name v) := by
  have digits : ∀ byte ∈ toString v, isDigit byte := fun _ member => isdigit_of_mem_decimal member
  apply reads_named (.inl plain) (opens_number (decimal_ne_nil _) digits)
  exact reads_number (decimal_ne_nil _) digits decimal_eq_of_head? depth

theorem reads_fieldsPiece (fields : Fields) (depth : Nat) :
    Reads (value (depth + 2)) (fieldsPiece fields) := by
  intro next _ rest left
  apply value_object_iff
  · intro piece member
    obtain ⟨entry, -, rfl⟩ := List.mem_map.mp member
    exact opens_named _ _
  · intro piece member
    obtain ⟨entry, -, rfl⟩ := List.mem_map.mp member
    exact reads_fieldPiece _ _ depth

theorem reads_recordPiece (ev : EvidenceRecord) (depth : Nat) :
    Reads (value (depth + 3)) (recordPiece ev) := by
  have fields : Reads (member (value (depth + 2)))
      (.named (ascii "fields") (fieldsPiece ev.fields)) :=
    reads_named (.inl (by decide)) (opens_object _) (reads_fieldsPiece ev.fields depth)
  intro next _ rest left
  apply value_object_iff
  · simp only [List.forall_mem_cons]
    refine ⟨opens_named _ _, opens_named _ _, opens_named _ _, opens_named _ _, opens_named _ _,
      opens_named _ _, opens_named _ _, by simp⟩
  · simp only [List.forall_mem_cons]
    exact ⟨reads_numberPiece (by decide) _ _, reads_numberPiece (by decide) _ _,
      reads_fieldPiece _ _ _, reads_fieldPiece _ _ _, reads_numberPiece (by decide) _ _, fields,
      reads_fieldPiece _ _ _, by simp⟩

def evidencePiece (records : List EvidenceRecord) : Piece Value :=
  .array (records.map recordPiece)

theorem text_evidencePiece (recorder : EvidenceRecorder) :
    (evidencePiece recorder.records).text = recorder.serializeJson := by
  rw [evidencePiece, Piece.array, joined_recordPiece, EvidenceRecorder.serializeJson]
  rfl

theorem meaning_evidencePiece {records : List EvidenceRecord}
    (nonnegative : ∀ ev ∈ records, 0 ≤ ev.seq) :
    (evidencePiece records).meaning = evidenceValue records := by
  change Value.array ((records.map recordPiece).map Piece.meaning) = evidenceValue records
  rw [List.map_map, evidenceValue, Value.array.injEq]
  apply List.map_congr_left
  intro ev member
  exact meaning_recordPiece (nonnegative ev member)

theorem faithful_evidencePiece_iff (records : List EvidenceRecord) :
    (evidencePiece records).faithful ↔
      ∀ ev ∈ records, ∀ entry ∈ ev.fields.toList, Plain entry.1 := by
  rw [evidencePiece, Piece.array, List.forall_mem_map]
  simp only [faithful_recordPiece_iff]

/-- The text is deeper than it nests. -/
theorem length_evidencePiece (records : List EvidenceRecord) :
    ∃ depth, (evidencePiece records).text.length = depth + 1 ∧ (records = [] ∨ 3 ≤ depth) := by
  refine ⟨(joined (records.map recordPiece)).length + 1, ?_, ?_⟩
  · simp [evidencePiece, Piece.array]
  · cases records with
    | nil => exact .inl rfl
    | cons ev records =>
        have braces : 2 ≤ (recordPiece ev).text.length := by simp [recordPiece, Piece.object]
        rw [List.map_cons, joined_cons, List.length_append]
        exact .inr (by omega)

theorem parse_serializeJson_iff (recorder : EvidenceRecorder)
    (nonnegative : ∀ ev ∈ recorder.records, 0 ≤ ev.seq) :
    parse recorder.serializeJson = some (evidenceValue recorder.records) ↔
      ∀ ev ∈ recorder.records, ∀ entry ∈ ev.fields.toList, Plain entry.1 := by
  obtain ⟨depth, size, deep⟩ := length_evidencePiece recorder.records
  rw [← text_evidencePiece, ← meaning_evidencePiece nonnegative, ← faithful_evidencePiece_iff]
  apply parse_array_iff size
  · intro piece member
    obtain ⟨ev, -, rfl⟩ := List.mem_map.mp member
    exact opens_object _
  · intro piece member
    obtain ⟨ev, inside, rfl⟩ := List.mem_map.mp member
    apply reads_element (opens_object _)
    cases deep with
    | inl empty =>
        rw [empty] at inside
        cases inside
    | inr deep =>
        obtain ⟨more, rfl⟩ := Nat.exists_eq_add_of_le' deep
        exact reads_recordPiece ev more

end Records

section Characters

/-- Every text of the record is valid. -/
def Utf8Record (ev : EvidenceRecord) : Prop :=
  Utf8 ev.phase ∧ Utf8 ev.payload ∧ ∀ entry ∈ ev.fields.toList, Utf8 entry.1 ∧ Utf8 entry.2

theorem utf8Record_ascii {ev : EvidenceRecord}
    (ascii : ev.phase.all (· < 0x80) ∧ ev.payload.all (· < 0x80) ∧
      ev.fields.toList.all fun entry => entry.1.all (· < 0x80) && entry.2.all (· < 0x80)) :
    Utf8Record ev := by
  obtain ⟨phase, payload, fields⟩ := ascii
  refine ⟨utf8_ascii phase, utf8_ascii payload, ?_⟩
  intro entry member
  have both := List.all_eq_true.mp fields entry member
  rw [Bool.and_eq_true] at both
  exact ⟨utf8_ascii both.1, utf8_ascii both.2⟩

theorem utf8_evidenceKindName (kind : EvidenceKind) : Utf8 (evidenceKindName kind) := by
  apply utf8_ascii
  cases kind <;> decide

theorem utf8_fieldPiece {name text : Bytes} (validName : Utf8 name) (valid : Utf8 text) :
    Utf8 (fieldPiece name text).text :=
  utf8_named validName (utf8_string (utf8_jsonEscape valid) text)

theorem utf8_numberPiece {name : Bytes} (valid : Utf8 name) (v : UInt64) :
    Utf8 (numberPiece name v).text := by
  apply utf8_named valid
  apply utf8_ascii
  apply List.all_eq_true.mpr
  intro byte member
  have digit := isdigit_of_mem_decimal member
  simp only [isdigit, Bool.and_eq_true, decide_eq_true_eq] at digit
  exact decide_eq_true (UInt8.lt_of_le_of_lt digit.2 (by decide))

theorem utf8_fieldsPiece {fields : Fields}
    (valid : ∀ entry ∈ fields.toList, Utf8 entry.1 ∧ Utf8 entry.2) :
    Utf8 (fieldsPiece fields).text := by
  apply utf8_object
  intro piece member
  obtain ⟨entry, inside, rfl⟩ := List.mem_map.mp member
  exact utf8_fieldPiece (valid entry inside).1 (valid entry inside).2

theorem utf8_recordPiece {ev : EvidenceRecord} (valid : Utf8Record ev) :
    Utf8 (recordPiece ev).text := by
  obtain ⟨phase, payload, fields⟩ := valid
  apply utf8_object
  simp only [List.forall_mem_cons]
  exact ⟨utf8_numberPiece (utf8_ascii (by decide)) _, utf8_numberPiece (utf8_ascii (by decide)) _,
    utf8_fieldPiece (utf8_ascii (by decide)) (utf8_evidenceKindName _),
    utf8_fieldPiece (utf8_ascii (by decide)) phase,
    utf8_numberPiece (utf8_ascii (by decide)) _,
    utf8_named (utf8_ascii (by decide)) (utf8_fieldsPiece fields),
    utf8_fieldPiece (utf8_ascii (by decide)) payload, by simp⟩

theorem utf8_serializeJson {recorder : EvidenceRecorder}
    (valid : ∀ ev ∈ recorder.records, Utf8Record ev) : Utf8 recorder.serializeJson := by
  rw [← text_evidencePiece]
  apply utf8_array
  intro piece member
  obtain ⟨ev, inside, rfl⟩ := List.mem_map.mp member
  exact utf8_recordPiece (valid ev inside)

end Characters

/-- The field names are all that is not escaped: the JSON form of the evidence says what was
recorded exactly when no field name needs it. -/
theorem denotes_serializeJson_iff (recorder : EvidenceRecorder)
    (nonnegative : ∀ ev ∈ recorder.records, 0 ≤ ev.seq)
    (valid : ∀ ev ∈ recorder.records, Utf8Record ev) :
    Denotes recorder.serializeJson (evidenceValue recorder.records) ↔
      ∀ ev ∈ recorder.records, ∀ entry ∈ ev.fields.toList, Plain entry.1 := by
  rw [Denotes, parse_serializeJson_iff recorder nonnegative]
  exact and_iff_right (utf8_serializeJson valid)

theorem denotes_serializeJson_two_fields :
    Denotes (EvidenceRecorder.serializeJson { records := [{
        seq := 3
        phase := ascii "phase"
        fields := ((∅ : Fields).insert (ascii "a") (ascii "value")).insert (ascii "d") (ascii "e")
        payload := ascii "p" }] })
      (evidenceValue [{
        seq := 3
        phase := ascii "phase"
        fields := ((∅ : Fields).insert (ascii "a") (ascii "value")).insert (ascii "d") (ascii "e")
        payload := ascii "p" }]) := by
  refine (denotes_serializeJson_iff _ ?_ ?_).mpr ?_
  · decide
  · intro ev member
    rw [List.mem_singleton.mp member]
    exact utf8Record_ascii (by decide +kernel)
  · decide +kernel

/-- A quotation mark in a field name ends the name too early. -/
theorem serializeJson_quote_in_name :
    ∃ recorder : EvidenceRecorder, (∀ ev ∈ recorder.records, 0 ≤ ev.seq) ∧
      (∀ ev ∈ recorder.records, Utf8Record ev) ∧
      ∀ result, ¬ Denotes recorder.serializeJson result := by
  refine ⟨{ records := [{ fields := (∅ : Fields).insert [0x61, Byte.quote, 0x62] (ascii "c") }] },
    by decide, ?_, ?_⟩
  · intro ev member
    rw [List.mem_singleton.mp member]
    exact utf8Record_ascii (by decide +kernel)
  · intro result denotes
    have unread : (parse (EvidenceRecorder.serializeJson { records := [{
        fields := (∅ : Fields).insert [0x61, Byte.quote, 0x62] (ascii "c") }] })).isNone := by
      decide +kernel
    rw [denotes.2] at unread
    cases unread

end ChaosLab

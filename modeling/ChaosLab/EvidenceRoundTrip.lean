import ChaosLab.EvidenceFieldsProperties
import ChaosLab.EvidenceLines

/-! Round trip of whole evidence lines and streams. Columns are cut before they
are unescaped, lines are trimmed, and the phase is not escaped at all, so only
some records survive; their exact shape is `Representable`. -/

set_option autoImplicit false

namespace ChaosLab

open Foundation EvidenceRecorder

theorem kindOfName_evidenceKindName {kind : EvidenceKind} (named : kind ≠ .last) :
    kindOfName (evidenceKindName kind) = kind := by
  cases kind <;> first | exact absurd rfl named | decide

theorem pipe_notMem_evidenceKindName (kind : EvidenceKind) :
    Byte.pipe ∉ evidenceKindName kind := by
  cases kind <;> decide

theorem newline_notMem_evidenceKindName (kind : EvidenceKind) :
    Byte.newline ∉ evidenceKindName kind := by
  cases kind <;> decide

def bodyText (seq : UInt64) (kind phase column payload : Bytes) : Bytes :=
  toHex seq ++ Byte.pipe :: (kind ++ Byte.pipe :: (phase ++ Byte.pipe ::
    (column ++ Byte.pipe :: payload)))

theorem lineText_eq (ev : EvidenceRecord) :
    lineText ev = toHex ev.id ++ Byte.colon :: bodyText ev.seq.toUInt64
      (evidenceKindName ev.kind) ev.phase (fieldsText true ev.fields.toList)
      (esc ev.payload) := by
  simp [lineText, EvidenceRecord.toText, bodyText]

theorem isspace_eq_false_of_nibble {byte : UInt8} (digit : (nibble byte).isSome) :
    isspace byte = false := by
  by_contra blank
  have blank : isspace byte = true := by simpa using blank
  simp only [isspace, Bool.or_eq_true, beq_iff_eq, Bool.and_eq_true, decide_eq_true_eq,
    UInt8.le_iff_toNat_le] at blank
  have bounds : (0x0d : UInt8).toNat = 13 ∧ (0x30 : UInt8).toNat = 48 ∧
      (0x61 : UInt8).toNat = 97 ∧ (0x41 : UInt8).toNat = 65 := ⟨rfl, rfl, rfl, rfl⟩
  have small : byte.toNat ≤ 32 := by
    rcases blank with rfl | blank
    · decide
    · omega
  have undigit : nibble byte = none := by
    unfold nibble
    simp only [UInt8.le_iff_toNat_le]
    rw [if_neg (by omega), if_neg (by omega), if_neg (by omega)]
  simp [undigit] at digit

theorem trim_toHex_append (value : UInt64) (before : Bytes) {kept : UInt8}
    (keeps : isspace kept = false) (after : Bytes) :
    trim (toHex value ++ (before ++ kept :: after)) =
      toHex value ++ (before ++ kept :: after.rdropWhile isspace) := by
  have unblank : (toHex value ++ (before ++ kept :: after)).dropWhile isspace =
      toHex value ++ (before ++ kept :: after) := by
    cases text : toHex value with
    | nil =>
        have length := length_toHex value
        simp [text] at length
    | cons first rest =>
        have digit : (nibble first).isSome :=
          nibble_of_mem_toHex (by rw [text]; exact .head rest)
        exact List.dropWhile_cons_of_neg (by simp [isspace_eq_false_of_nibble digit])
  rw [trim, unblank, ← List.append_assoc, rdropWhile_append_cons keeps, List.append_assoc]

theorem trim_lineText (ev : EvidenceRecord) :
    trim (lineText ev) = toHex ev.id ++ Byte.colon :: bodyText ev.seq.toUInt64
      (evidenceKindName ev.kind) ev.phase (fieldsText true ev.fields.toList)
      (esc (ev.payload.rdropWhile isblank)) := by
  have solid : isspace Byte.pipe = false := by decide
  have stripped := trim_toHex_append ev.id (Byte.colon :: (toHex ev.seq.toUInt64 ++ Byte.pipe ::
    (evidenceKindName ev.kind ++ Byte.pipe :: (ev.phase ++ Byte.pipe ::
      fieldsText true ev.fields.toList)))) solid (esc ev.payload)
  rw [rdropWhile_isspace_esc] at stripped
  simpa [lineText_eq, bodyText] using stripped

theorem parseLine_bodyText (id seq : UInt64) {kind : Bytes} (kindPipe : Byte.pipe ∉ kind)
    (phase column payload : Bytes) :
    parseLine (toHex id ++ Byte.colon :: bodyText seq kind phase column payload) =
      if Byte.pipe ∈ phase ∨ Byte.pipe ∈ column ∨ Byte.pipe ∈ payload then none
      else (parseFieldsColumn column).map fun fields => {
        id := id
        kind := kindOfName kind
        seq := seq.toInt64
        phase := unesc phase
        fields := fields
        payload := unesc payload } := by
  let columns : LineColumns := ⟨toHex id, toHex seq, kind, phase, column, payload⟩
  have noColon : Byte.colon ∉ columns.id := notMem_toHex (by decide) id
  have noPipe : Byte.pipe ∉ columns.seq := notMem_toHex (by decide) seq
  have four : columns.body.count Byte.pipe = 4 ↔
      ¬ (Byte.pipe ∈ phase ∨ Byte.pipe ∈ column ∨ Byte.pipe ∈ payload) := by
    rw [count_body, List.count_eq_zero.mpr noPipe, List.count_eq_zero.mpr kindPipe]
    simp only [← List.count_pos_iff, columns]
    omega
  have found : lineColumns (toHex id ++ Byte.colon :: bodyText seq kind phase column payload) =
      if columns.body.count Byte.pipe = 4 then some columns else none := lineColumns_body noColon
  rw [parseLine_eq, found]
  by_cases piped : Byte.pipe ∈ phase ∨ Byte.pipe ∈ column ∨ Byte.pipe ∈ payload
  · rw [if_neg fun plain => four.mp plain piped, if_pos piped]
    rfl
  · rw [if_pos (four.mpr piped), if_neg piped, Option.bind_some, LineColumns.read, fromHex_toHex,
      fromHex_toHex]
    cases parseFieldsColumn column with
    | none => rfl
    | some fields => rfl

theorem pipe_mem_fieldsText_iff (first : Bool) (entries : List (Bytes × Bytes)) :
    Byte.pipe ∈ fieldsText first entries ↔
      ∃ entry ∈ entries, Byte.pipe ∈ entry.1 ∨ Byte.pipe ∈ entry.2 := by
  have notEquals : Byte.pipe ≠ Byte.equals := by decide
  have notComma : Byte.pipe ≠ Byte.comma := by decide
  induction entries generalizing first with
  | nil => simp [fieldsText]
  | cons entry entries ih =>
      obtain ⟨key, value⟩ := entry
      cases first <;> simp [fieldsText, ih, pipe_mem_esc_iff, notEquals, notComma, or_assoc]

theorem lineBreak_notMem_fieldsText {letter byte : UInt8}
    (decoded : lineBreakTable letter = some byte) (first : Bool) (entries : List (Bytes × Bytes)) :
    byte ∉ fieldsText first entries := by
  have apart : byte ≠ Byte.equals ∧ byte ≠ Byte.comma := by
    rcases eq_of_lineBreak decoded with rfl | rfl
    · decide
    · decide
  have escaped := lineBreak_notMem_esc decoded
  induction entries generalizing first with
  | nil => simp [fieldsText]
  | cons entry entries ih =>
      obtain ⟨key, value⟩ := entry
      cases first with
      | false => simp [fieldsText, ih, escaped, apart]
      | true => simp [fieldsText, ih, escaped, apart]

theorem newline_notMem_fieldsText (first : Bool) (entries : List (Bytes × Bytes)) :
    Byte.newline ∉ fieldsText first entries :=
  lineBreak_notMem_fieldsText (by decide : lineBreakTable Byte.letterN = some _) first entries

theorem unesc_esc_rdropWhile_eq_self_iff {payload : Bytes} :
    unesc (esc (payload.rdropWhile isblank)) = payload ↔
      EscapeFree payload ∧ ∀ last ∈ payload.getLast?, isblank last = false := by
  have ending : payload.rdropWhile isblank = payload ↔
      ∀ last ∈ payload.getLast?, isblank last = false := by
    rw [List.rdropWhile_eq_self_iff]
    simp only [Option.mem_def, List.getLast?_eq_some_iff]
    constructor
    · rintro kept last ⟨before, rfl⟩
      simpa using kept (by simp)
    · intro kept nonempty
      simpa using kept (payload.getLast nonempty)
        ⟨payload.dropLast, (List.dropLast_append_getLast nonempty).symm⟩
  rw [← ending]
  constructor
  · intro same
    have shorter := length_unesc_esc_le (payload.rdropWhile isblank)
    rw [same] at shorter
    have whole : payload.rdropWhile isblank = payload :=
      (List.rdropWhile_prefix isblank payload).eq_of_length_le shorter
    rw [whole] at same
    exact ⟨unesc_esc_eq_self_iff.mp same, whole⟩
  · intro kept
    obtain ⟨escapeFree, whole⟩ := kept
    rw [whole]
    exact unesc_esc_eq_self_iff.mpr escapeFree

/-- The phases, field maps and payloads that the text form carries faithfully. -/
structure Representable (phase : Bytes) (fields : Fields) (payload : Bytes) : Prop where
  phasePipe : Byte.pipe ∉ phase
  phaseNewline : Byte.newline ∉ phase
  phaseEscape : EscapeFree phase
  fieldPipe : ∀ entry ∈ fields.toList, Byte.pipe ∉ entry.1 ∧ Byte.pipe ∉ entry.2
  field : ∀ entry ∈ fields.toList, FieldRepresentable entry.1 entry.2
  payloadPipe : Byte.pipe ∉ payload
  payloadEscape : EscapeFree payload
  payloadEnd : ∀ last ∈ payload.getLast?, isblank last = false

instance (phase : Bytes) (fields : Fields) (payload : Bytes) :
    Decidable (Representable phase fields payload) :=
  decidable_of_iff (Byte.pipe ∉ phase ∧ Byte.newline ∉ phase ∧ EscapeFree phase ∧
    (∀ entry ∈ fields.toList, Byte.pipe ∉ entry.1 ∧ Byte.pipe ∉ entry.2) ∧
    (∀ entry ∈ fields.toList, FieldRepresentable entry.1 entry.2) ∧
    Byte.pipe ∉ payload ∧ EscapeFree payload ∧
    ∀ last ∈ payload.getLast?, isblank last = false)
    ⟨fun ⟨h1, h2, h3, h4, h5, h6, h7, h8⟩ => ⟨h1, h2, h3, h4, h5, h6, h7, h8⟩,
      fun ⟨h1, h2, h3, h4, h5, h6, h7, h8⟩ => ⟨h1, h2, h3, h4, h5, h6, h7, h8⟩⟩

theorem pipe_mem_esc_rdropWhile {payload : Bytes} :
    Byte.pipe ∈ esc (payload.rdropWhile isblank) ↔ Byte.pipe ∈ payload := by
  rw [pipe_mem_esc_iff]
  constructor
  · exact fun member => (List.rdropWhile_prefix isblank payload).subset member
  · intro member
    obtain ⟨before, after, rfl⟩ := List.append_of_mem member
    rw [rdropWhile_append_cons (by decide)]
    simp

/-- A trimmed line is read back as its record exactly if the record is
representable, as long as the record stands on one line. -/
theorem parseLine_trim_lineText_iff {ev : EvidenceRecord} (named : ev.kind ≠ .last)
    (untimed : ev.timestampNs = 0) (oneLine : Byte.newline ∉ ev.phase) :
    parseLine (trim (lineText ev)) = some ev ↔
      Representable ev.phase ev.fields ev.payload := by
  obtain ⟨id, kind, seq, timestampNs, phase, fields, payload⟩ := ev
  simp only at named untimed oneLine
  subst untimed
  rw [trim_lineText, parseLine_bodyText _ _ (pipe_notMem_evidenceKindName kind)]
  simp only [pipe_mem_fieldsText_iff, pipe_mem_esc_rdropWhile]
  constructor
  · intro accepted
    split_ifs at accepted with piped
    simp only [not_or, not_exists, not_and] at piped
    obtain ⟨phasePipe, fieldPipe, payloadPipe⟩ := piped
    obtain ⟨parsed, column, same⟩ := Option.map_eq_some_iff.mp accepted
    simp only [EvidenceRecord.mk.injEq, true_and] at same
    obtain ⟨-, -, phaseSame, rfl, payloadSame⟩ := same
    obtain ⟨payloadEscape, payloadEnd⟩ := unesc_esc_rdropWhile_eq_self_iff.mp payloadSame
    exact {
      phasePipe := phasePipe
      phaseNewline := oneLine
      phaseEscape := (unesc_eq_self_iff phasePipe).mp phaseSame
      fieldPipe := fieldPipe
      field := parseFieldsColumn_eq_some_iff.mp column
      payloadPipe := payloadPipe
      payloadEscape := payloadEscape
      payloadEnd := payloadEnd }
  · intro representable
    have unpiped : ¬ (Byte.pipe ∈ phase ∨ (∃ entry ∈ fields.toList, Byte.pipe ∈ entry.1 ∨
        Byte.pipe ∈ entry.2) ∨ Byte.pipe ∈ payload) := by
      intro piped
      rcases piped with inPhase | ⟨entry, member, inKey | inValue⟩ | inPayload
      · exact representable.phasePipe inPhase
      · exact (representable.fieldPipe entry member).1 inKey
      · exact (representable.fieldPipe entry member).2 inValue
      · exact representable.payloadPipe inPayload
    rw [if_neg unpiped, parseFieldsColumn_eq_some_iff.mpr representable.field, Option.map_some,
      kindOfName_evidenceKindName named,
      (unesc_eq_self_iff representable.phasePipe).mpr representable.phaseEscape,
      unesc_esc_rdropWhile_eq_self_iff.mpr ⟨representable.payloadEscape, representable.payloadEnd⟩]
    simp

theorem trim_lineText_ne_nil (ev : EvidenceRecord) : trim (lineText ev) ≠ [] := by
  rw [trim_lineText]
  simp

private def openingText (ev : EvidenceRecord) (before : Bytes) : Bytes :=
  toHex ev.id ++ Byte.colon :: (toHex ev.seq.toUInt64 ++ Byte.pipe ::
    (evidenceKindName ev.kind ++ Byte.pipe :: before))

private theorem trim_openingText (ev : EvidenceRecord) (before : Bytes) :
    trim (openingText ev before) = openingText ev (before.rdropWhile isspace) := by
  have solid : isspace Byte.pipe = false := by decide
  have stripped := trim_toHex_append ev.id (Byte.colon :: (toHex ev.seq.toUInt64 ++ Byte.pipe ::
    evidenceKindName ev.kind)) solid before
  simpa [openingText] using stripped

private theorem newline_notMem_openingText (ev : EvidenceRecord) {before : Bytes}
    (absent : Byte.newline ∉ before) : Byte.newline ∉ openingText ev before := by
  have notColon : Byte.newline ≠ Byte.colon := by decide
  have notPipe : Byte.newline ≠ Byte.pipe := by decide
  have hex : ∀ value, Byte.newline ∉ toHex value := notMem_toHex (by decide)
  simp [openingText, hex, notColon, notPipe, newline_notMem_evidenceKindName, absent]

private theorem lineText_eq_openingText_append (ev : EvidenceRecord) {before after : Bytes}
    (cut : ev.phase = before ++ after) :
    lineText ev = openingText ev before ++ (after ++ Byte.pipe ::
      (fieldsText true ev.fields.toList ++ Byte.pipe :: esc ev.payload)) := by
  simp [lineText_eq, bodyText, openingText, cut]

/-- A phase broken over two lines leaves a first line whose phase is too short
to be the recorded one. -/
private theorem parseLine_openingText_ne {ev : EvidenceRecord} {before after : Bytes}
    (broken : ev.phase = before ++ Byte.newline :: after) :
    parseLine (trim (openingText ev before)) ≠ some ev := by
  intro accepted
  rw [trim_openingText, openingText] at accepted
  unfold parseLine at accepted
  rw [cutAt_append (notMem_toHex (by decide) ev.id)] at accepted
  simp only [Option.bind_eq_bind, Option.bind_some, fromHex_toHex] at accepted
  rw [split_append_cons (notMem_toHex (by decide) _),
    split_append_cons (pipe_notMem_evidenceKindName _)] at accepted
  split at accepted
  · rename_i seqText kindText phaseText column payloadText shape
    obtain ⟨seq, -, accepted⟩ := Option.bind_eq_some_iff.mp accepted
    obtain ⟨fields, -, accepted⟩ := Option.bind_eq_some_iff.mp accepted
    have phase : unesc phaseText = ev.phase :=
      congrArg EvidenceRecord.phase (Option.some.inj accepted)
    have inside : phaseText ∈ split (before.rdropWhile isspace) Byte.pipe := by
      rw [(List.cons.inj (List.cons.inj shape).2).2]
      exact .head _
    have bound := (sublist_of_mem_split inside).length_le
    have stripBound := (List.rdropWhile_prefix isspace before).length_le
    have readBound := length_unesc_le phaseText
    rw [phase, broken, List.length_append, List.length_cons] at readBound
    omega
  · cases accepted

theorem newline_notMem_lineText {ev : EvidenceRecord} (oneLine : Byte.newline ∉ ev.phase) :
    Byte.newline ∉ lineText ev := by
  have opening := newline_notMem_openingText ev oneLine
  have notPipe : Byte.newline ≠ Byte.pipe := by decide
  rw [lineText_eq_openingText_append ev (List.append_nil ev.phase).symm]
  simp [opening, notPipe, newline_notMem_fieldsText, newline_notMem_esc]

theorem parseText_lineText_eq_iff {ev : EvidenceRecord} (oneLine : Byte.newline ∉ ev.phase)
    (rest : Bytes) (records : List EvidenceRecord) :
    parseText (lineText ev ++ Byte.newline :: rest) = (true, ev :: records) ↔
      parseLine (trim (lineText ev)) = some ev ∧ parseText rest = (true, records) := by
  rw [parseText_eq_iff, parseText_eq_iff, evidenceLines_append_newline
    (newline_notMem_lineText oneLine) (trim_lineText_ne_nil ev), List.forall₂_cons]

/-- A record with a newline in its phase never comes back in its place. -/
theorem parseText_broken_ne {ev : EvidenceRecord} (broken : Byte.newline ∈ ev.phase)
    (rest : Bytes) (records : List EvidenceRecord) :
    parseText (lineText ev ++ rest) ≠ (true, ev :: records) := by
  obtain ⟨before, after, cut, absent⟩ := List.eq_append_cons_of_mem broken
  have solid : trim (openingText ev before) ≠ [] := by
    rw [trim_openingText, openingText]
    simp
  intro accepted
  rw [lineText_eq_openingText_append ev cut, List.append_assoc, List.cons_append,
    List.cons_append, parseText_eq_iff,
    evidenceLines_append_newline (newline_notMem_openingText ev absent) solid,
    List.forall₂_cons] at accepted
  exact parseLine_openingText_ne cut accepted.1

/-- The stream is read back as it was written exactly if every record is
representable: lines do not interact. -/
theorem parseText_lines_eq_iff {records : List EvidenceRecord}
    (named : ∀ ev ∈ records, ev.kind ≠ .last) (untimed : ∀ ev ∈ records, ev.timestampNs = 0) :
    parseText (records.flatMap fun ev => lineText ev ++ [Byte.newline]) = (true, records) ↔
      ∀ ev ∈ records, Representable ev.phase ev.fields ev.payload := by
  induction records with
  | nil => simp [parseText, parsePieces, trim]
  | cons ev records ih =>
      have ih := ih (fun other member => named other (.tail _ member))
        (fun other member => untimed other (.tail _ member))
      rw [List.flatMap_cons, List.append_assoc, List.singleton_append, List.forall_mem_cons, ← ih]
      by_cases broken : Byte.newline ∈ ev.phase
      · constructor
        · exact fun accepted => absurd accepted (parseText_broken_ne broken _ _)
        · exact fun both => absurd broken both.1.phaseNewline
      · rw [parseText_lineText_eq_iff broken,
          parseLine_trim_lineText_iff (named ev (.head _)) (untimed ev (.head _)) broken]

def EvidenceRecord.call (ev : EvidenceRecord) : RecordCall where
  kind := ev.kind
  phase := ev.phase
  fields := ev.fields
  payload := ev.payload

theorem foldl_record_spec (calls : List RecordCall) (recorder : EvidenceRecorder) :
    ∃ added, (calls.foldl record recorder).records = recorder.records ++ added ∧
      added.map EvidenceRecord.call = calls ∧ ∀ ev ∈ added, ev.timestampNs = 0 := by
  induction calls generalizing recorder with
  | nil => exact ⟨[], by simp, rfl, by simp⟩
  | cons call calls ih =>
      obtain ⟨added, records, arguments, untimed⟩ := ih (recorder.record call)
      refine ⟨recorder.newRecord call :: added, ?_, ?_, ?_⟩
      · rw [List.foldl_cons, records]
        simp [record]
      · simp [arguments, EvidenceRecord.call, newRecord]
      · exact List.forall_mem_cons.mpr ⟨rfl, untimed⟩

theorem recordAll_spec (calls : List RecordCall) :
    (recordAll calls).records.map EvidenceRecord.call = calls ∧
      ∀ ev ∈ (recordAll calls).records, ev.timestampNs = 0 := by
  obtain ⟨added, records, arguments, untimed⟩ := foldl_record_spec calls {}
  rw [recordAll, records]
  exact ⟨arguments, untimed⟩

theorem forall_recordAll {holds : RecordCall → Prop} {calls : List RecordCall} :
    (∀ ev ∈ (recordAll calls).records, holds ev.call) ↔ ∀ call ∈ calls, holds call := by
  conv_rhs => rw [← (recordAll_spec calls).1]
  rw [List.forall_mem_map]

/-- Evidence text round-trips exactly on streams of representable records. -/
theorem parseText_serializeText_iff (calls : List RecordCall)
    (named : ∀ call ∈ calls, call.kind ≠ .last) :
    parseText (recordAll calls).serializeText = (true, (recordAll calls).records) ↔
      ∀ call ∈ calls, Representable call.phase call.fields call.payload := by
  rw [serializeText, parseText_lines_eq_iff (forall_recordAll.mpr named) (recordAll_spec calls).2,
    ← forall_recordAll]
  rfl

theorem parseText_serializeText_two_records :
    let calls : List RecordCall := [
      { kind := .processLaunch, phase := ascii "setup"
        fields := ((∅ : Fields).insert (ascii "target") (ascii "coordinator")).insert
          (ascii "port") (ascii "12345")
        payload := ascii "args here" },
      { kind := .injection, phase := ascii "injecting"
        fields := (∅ : Fields).insert (ascii "fault") (ascii "worker_death") }]
    parseText (recordAll calls).serializeText = (true, (recordAll calls).records) := by
  exact (parseText_serializeText_iff _ (by decide)).mpr (by decide +kernel)

/-- A pipe in a phase gives the line a sixth column, and the whole stream is
refused. -/
theorem parseText_serializeText_pipe_phase :
    let calls : List RecordCall := [{ kind := .misc, phase := ascii "a|b" }]
    (∀ call ∈ calls, call.kind ≠ .last) ∧
      parseText (recordAll calls).serializeText ≠ (true, (recordAll calls).records) := by
  decide +kernel

end ChaosLab

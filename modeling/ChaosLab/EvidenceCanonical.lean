import ChaosLab.EvidenceRoundTrip

/-! Which accepted lines are written again as they stand. The parser takes more than the writer
writes: other kinds, fields in any order, numbers of any width. -/

set_option autoImplicit false

namespace ChaosLab

open Foundation EvidenceRecorder

section Fields

/-- The field column as the writer has it: the keys come in their order, each of them once. -/
structure CanonicalFields (column : Bytes) : Prop where
  noReturn : Byte.carriageReturn ∉ column
  ordered : ((split column Byte.comma).map itemEntry).Pairwise fun first second =>
    compare first.1 second.1 = .lt

theorem fieldItem_itemEntry {item : Bytes} (equals : Byte.equals ∈ item)
    (plain : ∀ byte ∈ item, escByte byte = [byte]) : fieldItem (itemEntry item) = item := by
  obtain ⟨key, value, rfl, absent⟩ := List.eq_append_cons_of_mem equals
  rw [List.forall_mem_append, List.forall_mem_cons] at plain
  rw [itemEntry, cutAt_append absent, fieldItem, esc_unesc_of_plain plain.1,
    esc_unesc_of_plain plain.2.2]

variable {column : Bytes} {fields : Fields}

/-- Where nothing of the column would be escaped, its items are those of its entries. -/
theorem map_fieldItem_itemEntry (nonempty : column ≠ [])
    (accepted : parseFieldsColumn column = some fields)
    (plain : ∀ byte ∈ column, escByte byte = [byte]) :
    ((split column Byte.comma).map itemEntry).map fieldItem = split column Byte.comma := by
  rw [List.map_map]
  refine (List.map_congr_left fun item member => ?_).trans (List.map_id _)
  apply fieldItem_itemEntry ((items_of_parseFieldsColumn nonempty accepted).1 item member)
  intro byte inside
  exact plain byte ((sublist_of_mem_split member).subset inside)

theorem fieldsText_eq_column_iff (accepted : parseFieldsColumn column = some fields)
    (noNewline : Byte.newline ∉ column) (noPipe : Byte.pipe ∉ column) :
    fieldsText true fields.toList = column ↔ CanonicalFields column := by
  by_cases empty : column = []
  · rw [parseFieldsColumn, if_pos empty] at accepted
    rw [← Option.some.inj accepted, empty]
    exact iff_of_true rfl ⟨by simp, List.pairwise_singleton _ _⟩
  · obtain ⟨-, built⟩ := items_of_parseFieldsColumn empty accepted
    constructor
    · intro same
      have representable := representable_of_parseFieldsColumn (same.symm ▸ accepted)
      have filled : fields.toList ≠ [] := by
        intro none
        rw [none] at same
        exact empty same.symm
      obtain ⟨-, items⟩ := split_fieldsText filled fun entry member =>
        ⟨(representable entry member).keyComma, (representable entry member).valueComma⟩
      have entries : (split column Byte.comma).map itemEntry = fields.toList := by
        rw [same] at items
        rw [items, List.map_map]
        refine (List.map_congr_left fun entry member => ?_).trans (List.map_id _)
        exact (itemEntry_fieldItem (representable entry member).keyEquals).trans
          (representable entry member).unesc_esc
      refine ⟨?_, ?_⟩
      · rw [← same]
        exact lineBreak_notMem_fieldsText (by decide : lineBreakTable Byte.letterR = some _) _ _
      · rw [entries]
        exact Std.ExtTreeMap.ordered_keys_toList
    · intro canonical
      have plain : ∀ byte ∈ column, escByte byte = [byte] :=
        fun byte member => escByte_of_mem noNewline canonical.noReturn noPipe member
      rw [← built, toList_insertAll canonical.ordered, fieldsText_eq_intercalate,
        map_fieldItem_itemEntry empty accepted plain, intercalate_split]

end Fields

section Kinds

theorem evidenceKindName_kindOfName_iff {name : Bytes} :
    evidenceKindName (kindOfName name) = name ↔ name ∈ kindNames := by
  constructor
  · intro same
    by_contra unknown
    have misc : kindOfName name = .misc := by
      rw [kindOfName, List.idxOf_eq_length unknown]
      rfl
    rw [misc] at same
    rw [← same] at unknown
    exact unknown (by decide +kernel)
  · revert name
    decide +kernel

end Kinds

section Lines

/-- The columns as the writer has them. -/
structure LineColumns.Canonical (columns : LineColumns) : Prop where
  seq : CanonicalHex columns.seq
  kind : columns.kind ∈ kindNames
  phase : EscapeFree columns.phase
  fields : CanonicalFields columns.fields
  payload : Byte.carriageReturn ∉ columns.payload

/-- The columns that a record is written in. -/
def writtenColumns (ev : EvidenceRecord) : LineColumns where
  id := toHex ev.id
  seq := toHex ev.seq.toUInt64
  kind := evidenceKindName ev.kind
  phase := ev.phase
  fields := fieldsText true ev.fields.toList
  payload := esc ev.payload

theorem body_writtenColumns (ev : EvidenceRecord) : (writtenColumns ev).body = ev.toText := by
  simp [writtenColumns, LineColumns.body, EvidenceRecord.toText]

/-- Columns that end at their delimiters are those of no other text. -/
theorem body_eq_iff {written columns : LineColumns} (cut : columns.Cut) :
    written.body = columns.body ↔ written.seq = columns.seq ∧ written.kind = columns.kind ∧
      written.phase = columns.phase ∧ written.fields = columns.fields ∧
      written.payload = columns.payload := by
  constructor
  · intro same
    have four := cut.count_body
    have pieces := split_body four
    rw [← same] at four
    rw [← same, split_body four] at pieces
    simpa only [List.cons.injEq, and_true] using pieces
  · intro same
    obtain ⟨seq, kind, phase, fields, payload⟩ := same
    rw [LineColumns.body, seq, kind, phase, fields, payload]
    rfl

/-- A line that is read is written again as it stands exactly if it has the writer's form. -/
theorem toText_eq_body_iff {columns : LineColumns} (cut : columns.Cut)
    (oneLine : Byte.newline ∉ columns.body) {ev : EvidenceRecord}
    (read : columns.read = some ev) : ev.toText = columns.body ↔ columns.Canonical := by
  obtain ⟨id, seq, fields, -, seqRead, fieldsRead, rfl⟩ := LineColumns.read_eq_some_iff.mp read
  have newline : Byte.newline ∉ columns.fields ∧ Byte.newline ∉ columns.payload := by
    simp only [LineColumns.body, List.mem_append, List.mem_cons, not_or] at oneLine
    tauto
  rw [← body_writtenColumns, body_eq_iff cut]
  simp only [writtenColumns, UInt64.toUInt64_toInt64, toHex_eq_self_iff seqRead,
    evidenceKindName_kindOfName_iff, unesc_eq_self_iff cut.phase,
    fieldsText_eq_column_iff fieldsRead newline.1 cut.fields,
    esc_unesc_eq_self_iff newline.2 cut.payload]
  constructor
  · intro all
    obtain ⟨seq, kind, phase, fields, payload⟩ := all
    exact ⟨seq, kind, phase, fields, payload⟩
  · intro canonical
    exact ⟨canonical.seq, canonical.kind, canonical.phase, canonical.fields, canonical.payload⟩

/-- What stands after the first colon. -/
def afterColon (line : Bytes) : Bytes := (line.dropWhile (· ≠ Byte.colon)).tail

/-- The line has the writer's form, apart from its id. -/
def CanonicalLine (line : Bytes) : Prop :=
  ∀ columns, lineColumns line = some columns → columns.Canonical

theorem newline_notMem_of_mem_evidenceLines {text line : Bytes}
    (member : line ∈ evidenceLines text) : Byte.newline ∉ line := by
  obtain ⟨listed, -⟩ := List.mem_filter.mp member
  obtain ⟨piece, inside, rfl⟩ := List.mem_map.mp listed
  intro found
  apply not_mem_of_mem_splitOn inside
  exact (List.dropWhile_suffix _).subset ((List.rdropWhile_prefix _ _).subset found)

theorem rewritten_iff {line : Bytes} (oneLine : Byte.newline ∉ line) {ev : EvidenceRecord}
    (accepted : parseLine line = some ev) :
    ev.toText = afterColon line ↔ CanonicalLine line := by
  rw [parseLine_eq] at accepted
  obtain ⟨columns, found, read⟩ := Option.bind_eq_some_iff.mp accepted
  obtain ⟨whole, cut⟩ := lineColumns_eq_some found
  have after : afterColon line = columns.body := by
    have colon := cutAt_append cut.id columns.body
    rw [← whole] at colon
    unfold cutAt at colon
    split at colon
    · exact (Prod.mk.inj (Option.some.inj colon)).2
    · cases colon
  have body : Byte.newline ∉ columns.body := by
    intro inside
    rw [whole] at oneLine
    exact oneLine (List.mem_append_right _ (.tail _ inside))
  unfold CanonicalLine
  rw [after, found]
  simp only [Option.some.injEq, forall_eq']
  exact toText_eq_body_iff cut body read

theorem forall₂_rewritten_iff {text : Bytes} {records : List EvidenceRecord}
    (accepted : parseText text = (true, records)) :
    List.Forall₂ (fun line (ev : EvidenceRecord) => ev.toText = afterColon line ↔ CanonicalLine line)
      (evidenceLines text) records := by
  rw [parseText_eq_iff] at accepted
  have oneLine := fun line (member : line ∈ evidenceLines text) =>
    newline_notMem_of_mem_evidenceLines member
  generalize evidenceLines text = lines at accepted oneLine
  induction accepted with
  | nil => exact .nil
  | cons head _ ih =>
      rw [List.forall_mem_cons] at oneLine
      exact .cons (rewritten_iff oneLine.1 head) (ih oneLine.2)

/-- An accepted text is written again as it stands exactly if all of its lines have the
writer's form; and one by one, the lines in that form are those that are. -/
theorem parseText_rewritten_iff {text : Bytes} {records : List EvidenceRecord}
    (accepted : parseText text = (true, records)) :
    (List.Forall₂ (fun line (ev : EvidenceRecord) => ev.toText = afterColon line)
        (evidenceLines text) records ↔ ∀ line ∈ evidenceLines text, CanonicalLine line) ∧
      List.Forall₂
        (fun line (ev : EvidenceRecord) => ev.toText = afterColon line ↔ CanonicalLine line)
        (evidenceLines text) records := by
  have each := forall₂_rewritten_iff accepted
  refine ⟨?_, each⟩
  clear accepted
  generalize evidenceLines text = lines at each
  induction each with
  | nil => simp
  | cons head _ ih => rw [List.forall₂_cons, List.forall_mem_cons, ih, head]

/-- One line as the writer has it, and one with its keys out of order and a kind of its own. -/
theorem parseText_rewritten_two_lines :
    let text := ascii "1:0000000000000001|misc|p|a=1,b=2|x\n\n 2:2|other|p|b=2,a=1|x"
    let records : List EvidenceRecord := [
      { id := 1, seq := 1, phase := ascii "p", payload := ascii "x"
        fields := ((∅ : Fields).insert (ascii "a") (ascii "1")).insert (ascii "b") (ascii "2") },
      { id := 2, seq := 2, phase := ascii "p", payload := ascii "x"
        fields := ((∅ : Fields).insert (ascii "b") (ascii "2")).insert (ascii "a") (ascii "1") }]
    (List.Forall₂ (fun line (ev : EvidenceRecord) => ev.toText = afterColon line)
        (evidenceLines text) records ↔ ∀ line ∈ evidenceLines text, CanonicalLine line) ∧
      List.Forall₂
        (fun line (ev : EvidenceRecord) => ev.toText = afterColon line ↔ CanonicalLine line)
        (evidenceLines text) records := by
  intro text records
  exact parseText_rewritten_iff (by decide +kernel)

/-- A kind that no writer knows is read as `MISC`. -/
theorem parseText_unknown_kind :
    ¬ ∀ (text : Bytes) (records : List EvidenceRecord), parseText text = (true, records) →
      List.Forall₂ (fun line (ev : EvidenceRecord) => ev.toText = afterColon line)
        (evidenceLines text) records := by
  intro strict
  have lines : evidenceLines (ascii "1:0000000000000001|other|p||") =
      [ascii "1:0000000000000001|other|p||"] := by decide +kernel
  have rewritten := strict (ascii "1:0000000000000001|other|p||")
    [{ id := 1, seq := 1, phase := ascii "p" }] (by decide +kernel)
  rw [lines] at rewritten
  cases rewritten with
  | cons head _ =>
      revert head
      decide +kernel

end Lines

end ChaosLab

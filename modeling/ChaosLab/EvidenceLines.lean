import ChaosLab.Evidence
import ChaosLab.TextProperties

/-! The lines of an evidence text, their columns, and what the parser reads of each. -/

set_option autoImplicit false

namespace ChaosLab

open Foundation EvidenceRecorder

/-- The lines that are not blank, without the white space around them. -/
def evidenceLines (text : Bytes) : List Bytes :=
  ((text.splitOn Byte.newline).map trim).filter (· ≠ [])

theorem parsePieces_eq_iff {pieces : List Bytes} {records : List EvidenceRecord} :
    parsePieces pieces = (true, records) ↔
      List.Forall₂ (fun line ev => parseLine line = some ev)
        ((pieces.map trim).filter (· ≠ [])) records := by
  induction pieces generalizing records with
  | nil =>
      cases records with
      | nil => simp [parsePieces]
      | cons ev records => simp [parsePieces]
  | cons piece pieces ih =>
      rw [parsePieces, List.map_cons]
      by_cases blank : trim piece = []
      · rw [if_pos blank, List.filter_cons_of_neg (by simpa using blank)]
        exact ih
      · rw [if_neg blank, List.filter_cons_of_pos (by simpa using blank)]
        cases parsed : parseLine (trim piece) with
        | none =>
            cases records with
            | nil => simp
            | cons ev records => simp [parsed]
        | some ev =>
            cases records with
            | nil => simp
            | cons other records =>
                rw [List.forall₂_cons, ← ih, parsed]
                simp only [List.cons.injEq, Option.some.injEq, Prod.ext_iff]
                exact and_left_comm

/-- A text is accepted if every line of it is, with the records of its lines. -/
theorem parseText_eq_iff {text : Bytes} {records : List EvidenceRecord} :
    parseText text = (true, records) ↔
      List.Forall₂ (fun line ev => parseLine line = some ev) (evidenceLines text) records :=
  parsePieces_eq_iff

theorem evidenceLines_append_newline {line : Bytes} (oneLine : Byte.newline ∉ line)
    (solid : trim line ≠ []) (rest : Bytes) :
    evidenceLines (line ++ Byte.newline :: rest) = trim line :: evidenceLines rest := by
  rw [evidenceLines, List.splitOn_append_cons_self_of_not_mem oneLine, List.map_cons,
    List.filter_cons_of_pos (by simpa using solid)]
  rfl

/-- The columns of a line, as they stand there. -/
structure LineColumns where
  id : Bytes
  seq : Bytes
  kind : Bytes
  phase : Bytes
  fields : Bytes
  payload : Bytes

namespace LineColumns

/-- What stands after the colon. -/
def body (columns : LineColumns) : Bytes :=
  columns.seq ++ Byte.pipe :: (columns.kind ++ Byte.pipe :: (columns.phase ++ Byte.pipe ::
    (columns.fields ++ Byte.pipe :: columns.payload)))

/-- No column goes on beyond its delimiter. -/
structure Cut (columns : LineColumns) : Prop where
  id : Byte.colon ∉ columns.id
  seq : Byte.pipe ∉ columns.seq
  kind : Byte.pipe ∉ columns.kind
  phase : Byte.pipe ∉ columns.phase
  fields : Byte.pipe ∉ columns.fields
  payload : Byte.pipe ∉ columns.payload

/-- What the parser makes of the columns. -/
def read (columns : LineColumns) : Option EvidenceRecord := do
  let id ← fromHex columns.id
  let seq ← fromHex columns.seq
  let fields ← parseFieldsColumn columns.fields
  return {
    id := id
    kind := kindOfName columns.kind
    seq := seq.toInt64
    phase := unesc columns.phase
    fields := fields
    payload := unesc columns.payload }

theorem read_eq_some_iff {columns : LineColumns} {ev : EvidenceRecord} :
    columns.read = some ev ↔ ∃ id seq fields, fromHex columns.id = some id ∧
      fromHex columns.seq = some seq ∧ parseFieldsColumn columns.fields = some fields ∧
      ev = {
        id := id
        kind := kindOfName columns.kind
        seq := seq.toInt64
        phase := unesc columns.phase
        fields := fields
        payload := unesc columns.payload } := by
  constructor
  · intro accepted
    obtain ⟨id, idRead, accepted⟩ := Option.bind_eq_some_iff.mp accepted
    obtain ⟨seq, seqRead, accepted⟩ := Option.bind_eq_some_iff.mp accepted
    obtain ⟨fields, fieldsRead, accepted⟩ := Option.bind_eq_some_iff.mp accepted
    exact ⟨id, seq, fields, idRead, seqRead, fieldsRead, (Option.some.inj accepted).symm⟩
  · intro found
    obtain ⟨id, seq, fields, idRead, seqRead, fieldsRead, whole⟩ := found
    rw [read, idRead, seqRead, fieldsRead, whole]
    rfl

end LineColumns

theorem count_body (columns : LineColumns) : columns.body.count Byte.pipe =
    columns.seq.count Byte.pipe + columns.kind.count Byte.pipe + columns.phase.count Byte.pipe +
      columns.fields.count Byte.pipe + columns.payload.count Byte.pipe + 4 := by
  simp only [LineColumns.body, List.count_append, List.count_cons_self]
  omega

theorem split_body {columns : LineColumns} (four : columns.body.count Byte.pipe = 4) :
    split columns.body Byte.pipe =
      [columns.seq, columns.kind, columns.phase, columns.fields, columns.payload] := by
  rw [count_body] at four
  have absent {column : Bytes} (none : column.count Byte.pipe = 0) : Byte.pipe ∉ column :=
    List.count_eq_zero.mp none
  rw [LineColumns.body, split_append_cons (absent (by omega)),
    split_append_cons (absent (by omega)), split_append_cons (absent (by omega)),
    split_append_cons (absent (by omega)), split_of_notMem (absent (by omega))]

theorem LineColumns.Cut.count_body {columns : LineColumns} (cut : columns.Cut) :
    columns.body.count Byte.pipe = 4 := by
  rw [ChaosLab.count_body, List.count_eq_zero.mpr cut.seq, List.count_eq_zero.mpr cut.kind,
    List.count_eq_zero.mpr cut.phase, List.count_eq_zero.mpr cut.fields,
    List.count_eq_zero.mpr cut.payload]

/-- The columns of a line that has as many as it should. -/
def lineColumns (line : Bytes) : Option LineColumns :=
  match cutAt Byte.colon line with
  | none => none
  | some (id, rest) =>
      match split rest Byte.pipe with
      | [seq, kind, phase, fields, payload] => some ⟨id, seq, kind, phase, fields, payload⟩
      | _ => none

theorem parseLine_eq (line : Bytes) : parseLine line = (lineColumns line).bind LineColumns.read := by
  unfold parseLine lineColumns
  cases cutAt Byte.colon line with
  | none => rfl
  | some parts =>
      obtain ⟨id, rest⟩ := parts
      dsimp only [Option.bind_eq_bind, Option.bind_some]
      generalize split rest Byte.pipe = pieces
      match pieces with
      | [_, _, _, _, _] => rfl
      | [] | [_] | [_, _] | [_, _, _] | [_, _, _, _] | _ :: _ :: _ :: _ :: _ :: _ :: _ =>
          cases fromHex id with
          | none => rfl
          | some value => rfl

/-- The columns are found where none of them goes on beyond its delimiter. -/
theorem lineColumns_body {columns : LineColumns} (noColon : Byte.colon ∉ columns.id) :
    lineColumns (columns.id ++ Byte.colon :: columns.body) =
      if columns.body.count Byte.pipe = 4 then some columns else none := by
  rw [lineColumns, cutAt_append noColon]
  by_cases four : columns.body.count Byte.pipe = 4
  · rw [if_pos four]
    simp only [split_body four]
  · have other : (split columns.body Byte.pipe).length ≠ 5 := by
      rw [length_split]
      omega
    rw [if_neg four]
    dsimp only
    split
    · rename_i pieces
      rw [pieces] at other
      exact absurd rfl other
    · rfl

theorem lineColumns_eq_some {line : Bytes} {columns : LineColumns}
    (found : lineColumns line = some columns) :
    line = columns.id ++ Byte.colon :: columns.body ∧ columns.Cut := by
  unfold lineColumns at found
  cases cut : cutAt Byte.colon line with
  | none =>
      rw [cut] at found
      cases found
  | some parts =>
      obtain ⟨id, rest⟩ := parts
      obtain ⟨noColon, whole⟩ := cutAt_eq_some_iff.mp cut
      rw [cut] at found
      dsimp only at found
      split at found
      · rename_i seq kind phase fields payload pieces
        cases found
        obtain ⟨-, absent, body⟩ := split_eq_iff.mp pieces
        constructor
        · rw [whole, ← body]
          simp [LineColumns.body, List.intercalate]
        · exact {
            id := noColon
            seq := absent _ (by simp)
            kind := absent _ (by simp)
            phase := absent _ (by simp)
            fields := absent _ (by simp)
            payload := absent _ (by simp) }
      · cases found

end ChaosLab

import ChaosLab.DigestProperties
import ChaosLab.EvidencePinned
import ChaosLab.ReplayProperties

/-! How much of a record the comparison of two runs and the digest of a run look at. -/

set_option autoImplicit false

namespace ChaosLab

open Foundation EvidenceRecorder

/-- The records agree on everything but the time. -/
def SameRecord (left right : EvidenceRecord) : Prop :=
  left.id = right.id ∧ left.seq = right.seq ∧ left.kind = right.kind ∧
    left.phase = right.phase ∧ left.fields = right.fields ∧ left.payload = right.payload

def SameEvidence (a b : List EvidenceRecord) : Prop := List.Forall₂ SameRecord a b

section Texts

theorem toHex_injective : Function.Injective toHex := by
  intro left right same
  have read := congrArg fromHex same
  rw [fromHex_toHex, fromHex_toHex] at read
  exact Option.some.inj read

theorem toText_eq (ev : EvidenceRecord) :
    ev.toText = toHex ev.seq.toUInt64 ++ (Byte.pipe :: evidenceKindName ev.kind ++
      Byte.pipe :: ev.phase ++ Byte.pipe :: columnsText ev.fields ev.payload) := by
  simp [EvidenceRecord.toText, columnsText]

/-- The sequence number has a fixed width; kind and phase are known. -/
theorem toText_eq_iff {left right : EvidenceRecord} (kind : left.kind = right.kind)
    (phase : left.phase = right.phase) :
    left.toText = right.toText ↔ left.seq = right.seq ∧
      columnsText left.fields left.payload = columnsText right.fields right.payload := by
  rw [toText_eq, toText_eq, kind, phase]
  constructor
  · intro same
    obtain ⟨numbers, rest⟩ := List.append_inj same (by rw [length_toHex, length_toHex])
    refine ⟨?_, ?_⟩
    · have words := congrArg UInt64.toInt64 (toHex_injective numbers)
      simpa only [Int64.toInt64_toUInt64] using words
    · exact (List.cons.inj (List.append_cancel_left rest)).2
  · intro same
    rw [same.1, same.2]

end Texts

section Digests

/-- The arguments of the calls of `update`. -/
def digestPieces (records : List EvidenceRecord) : List Bytes :=
  records.flatMap fun ev => [ev.toText, [Byte.newline]]

/-- The bytes that the digest is taken of. -/
def digestInput (records : List EvidenceRecord) : Bytes := (digestPieces records).flatten

theorem digest_eq (recorder : EvidenceRecorder) :
    recorder.digest = ((digestPieces recorder.records).foldl Sha256.update Sha256.reset).finish := by
  have steps (records : List EvidenceRecord) (hash : Sha256) :
      records.foldl (fun hash ev => (hash.update ev.toText).update [Byte.newline]) hash =
        (digestPieces records).foldl Sha256.update hash := by
    induction records generalizing hash with
    | nil => rfl
    | cons ev records ih =>
        rw [List.foldl_cons, ih]
        rfl
  rw [digest, steps]

theorem digest_eq_of_toText {a b : List EvidenceRecord}
    (same : a.map EvidenceRecord.toText = b.map EvidenceRecord.toText) :
    (recordRawAll a).digest = (recordRawAll b).digest := by
  have pieces (records : List EvidenceRecord) : digestPieces records =
      (records.map EvidenceRecord.toText).flatMap fun text => [text, [Byte.newline]] := by
    rw [digestPieces, List.flatMap_map]
  rw [digest_eq, digest_eq, records_recordRawAll, records_recordRawAll, pieces, pieces, same]

end Digests

section Comparison

theorem recordDiffers_eq_false_iff {left right : EvidenceRecord} :
    recordDiffers left right = false ↔ left.id = right.id ∧ left.kind = right.kind ∧
      left.phase = right.phase ∧ left.toText = right.toText := by
  simp [recordDiffers, and_assoc]

theorem recordDifferences_eq_nil_iff {a b : List EvidenceRecord} (index : Nat) :
    a.length = b.length ∧ recordDifferences index a b = [] ↔
      List.Forall₂ (fun left right => recordDiffers left right = false) a b := by
  induction a generalizing b index with
  | nil =>
      cases b with
      | nil => simp [recordDifferences]
      | cons right b => simp
  | cons left a ih =>
      cases b with
      | nil => simp
      | cons right b =>
          rw [List.forall₂_cons, ← ih (index + 1), recordDifferences]
          cases differs : recordDiffers left right with
          | false => simp
          | true => simp

theorem map_eq_of_undistinguished {Value : Type} (part : EvidenceRecord → Value)
    (agrees : ∀ left right, recordDiffers left right = false → part left = part right)
    {a b : List EvidenceRecord}
    (same : List.Forall₂ (fun left right => recordDiffers left right = false) a b) :
    a.map part = b.map part := by
  induction same with
  | nil => rfl
  | cons head _ ih => rw [List.map_cons, List.map_cons, agrees _ _ head, ih]

theorem samePlan_iff {a b : List EvidenceRecord} :
    (compareRuns a b).samePlan = true ↔
      List.Forall₂ (fun left right => recordDiffers left right = false) a b := by
  rw [← recordDifferences_eq_nil_iff 0]
  simp only [compareRuns, Bool.and_eq_true, List.isEmpty_iff]
  by_cases sizes : a.length = b.length
  · simp [sizes]
  · simp [sizes]

theorem countKind_eq (records : List EvidenceRecord) (kind : EvidenceKind) :
    countKind records kind = (records.map EvidenceRecord.kind).countP (· == kind) := by
  rw [List.countP_map]
  rfl

theorem compareRuns_of_samePlan {a b : List EvidenceRecord}
    (same : (compareRuns a b).samePlan = true) :
    (compareRuns a b).sameInjections = true ∧ (compareRuns a b).sameAssertions = true ∧
      (compareRuns a b).sameStateDigest = true := by
  have undistinguished := samePlan_iff.mp same
  have kinds := map_eq_of_undistinguished EvidenceRecord.kind
    (fun _ _ same => (recordDiffers_eq_false_iff.mp same).2.1) undistinguished
  have texts := map_eq_of_undistinguished EvidenceRecord.toText
    (fun _ _ same => (recordDiffers_eq_false_iff.mp same).2.2.2) undistinguished
  have counts (kind : EvidenceKind) : countKind a kind = countKind b kind := by
    rw [countKind_eq, countKind_eq, kinds]
  simp [compareRuns, counts, digest_eq_of_toText texts]

/-- The counts and the digests of the report add nothing to the record by record comparison;
the terminal phase does. -/
theorem compareRuns_allSame_iff {a b : List EvidenceRecord} :
    (compareRuns a b).allSame = true ↔
      List.Forall₂ (fun left right => recordDiffers left right = false) a b ∧
        terminalPhase a = terminalPhase b := by
  have terminal : (compareRuns a b).sameTerminalState = true ↔
      terminalPhase a = terminalPhase b := beq_iff_eq
  rw [← samePlan_iff, ← terminal]
  unfold ReplayReport.allSame
  simp only [Bool.and_eq_true]
  constructor
  · intro same
    obtain ⟨⟨⟨⟨plan, -⟩, -⟩, terminal⟩, -⟩ := same
    exact ⟨plan, terminal⟩
  · intro same
    obtain ⟨plan, terminal⟩ := same
    obtain ⟨injections, assertions, digest⟩ := compareRuns_of_samePlan plan
    exact ⟨⟨⟨⟨plan, injections⟩, assertions⟩, terminal⟩, digest⟩

end Comparison

section Terminal

/-- The record is the one whose `phase` field is the terminal phase. -/
def Concludes (record : EvidenceRecord) (after : List EvidenceRecord) : Prop :=
  record.kind = .finalResult ∧ ∀ later ∈ after, later.kind ≠ .finalResult

theorem foldl_terminal (start : Bytes) (records : List EvidenceRecord) :
    records.foldl (fun phase ev =>
        if ev.kind = .finalResult then ev.fieldOr (ascii "phase") [] else phase) start =
      if ∃ ev ∈ records, ev.kind = .finalResult then terminalPhase records else start := by
  induction records generalizing start with
  | nil => simp
  | cons ev records ih =>
      have whole : terminalPhase (ev :: records) =
          if ∃ later ∈ records, later.kind = .finalResult then terminalPhase records
          else if ev.kind = .finalResult then ev.fieldOr (ascii "phase") [] else [] := by
        rw [terminalPhase, List.foldl_cons, ih]
      rw [List.foldl_cons, ih, whole]
      by_cases later : ∃ later ∈ records, later.kind = .finalResult
      · simp [later]
      · by_cases final : ev.kind = .finalResult
        · simp [later, final]
        · simp [later, final]

theorem terminalPhase_append_cons (before after : List EvidenceRecord)
    (record : EvidenceRecord) :
    terminalPhase (before ++ record :: after) =
      if ∃ later ∈ after, later.kind = .finalResult then terminalPhase after
      else if record.kind = .finalResult then record.fieldOr (ascii "phase") []
      else terminalPhase before := by
  rw [terminalPhase, List.foldl_append, List.foldl_cons, foldl_terminal]
  rfl

theorem Concludes.terminalPhase_eq {record : EvidenceRecord} {after : List EvidenceRecord}
    (concludes : Concludes record after) (before : List EvidenceRecord) :
    terminalPhase (before ++ record :: after) = record.fieldOr (ascii "phase") [] := by
  obtain ⟨final, last⟩ := concludes
  have none : ¬ ∃ later ∈ after, later.kind = .finalResult := by
    intro found
    obtain ⟨later, member, kind⟩ := found
    exact last later member kind
  rw [terminalPhase_append_cons, if_neg none, if_pos final]

/-- Another record of the same kind in the same place. -/
theorem terminalPhase_replace {record other : EvidenceRecord} (kind : other.kind = record.kind)
    {after : List EvidenceRecord}
    (pinned : Concludes record after →
      other.fieldOr (ascii "phase") [] = record.fieldOr (ascii "phase") [])
    (before : List EvidenceRecord) :
    terminalPhase (before ++ record :: after) = terminalPhase (before ++ other :: after) := by
  rw [terminalPhase_append_cons, terminalPhase_append_cons, kind]
  by_cases later : ∃ later ∈ after, later.kind = .finalResult
  · rw [if_pos later, if_pos later]
  · rw [if_neg later, if_neg later]
    by_cases final : record.kind = .finalResult
    · rw [if_pos final, if_pos final, pinned ⟨final, fun ev member same => later ⟨ev, member, same⟩⟩]
    · rw [if_neg final, if_neg final]

end Terminal

/-- What the comparison has to find in a record, which depends on the records after it. -/
def Recognizable (record : EvidenceRecord) (after : List EvidenceRecord) : Prop :=
  (Concludes record after → PhaseDistinctive record.fields record.payload) ∧
    (¬ Concludes record after → Distinctive record.fields record.payload)

theorem Recognizable.same {left right : EvidenceRecord} {lefts : List EvidenceRecord}
    (recognizable : Recognizable left lefts) (alike : recordDiffers left right = false)
    (terminal : Concludes left lefts →
      right.fieldOr (ascii "phase") [] = left.fieldOr (ascii "phase") []) :
    SameRecord left right := by
  obtain ⟨id, kind, phase, text⟩ := recordDiffers_eq_false_iff.mp alike
  obtain ⟨seq, columns⟩ := (toText_eq_iff kind phase).mp text
  have rest : right.fields = left.fields ∧ right.payload = left.payload := by
    by_cases concludes : Concludes left lefts
    · exact (recognizable.1 concludes).unique columns.symm (terminal concludes)
    · exact (recognizable.2 concludes).unique columns.symm
  exact ⟨id, seq, kind, phase, rest.1.symm, rest.2.symm⟩

theorem concludes_of_forall₂ {left right : EvidenceRecord} {lefts rights : List EvidenceRecord}
    (head : recordDiffers left right = false)
    (tail : List.Forall₂ (fun left right => recordDiffers left right = false) lefts rights)
    (concludes : Concludes left lefts) : Concludes right rights := by
  have kinds := map_eq_of_undistinguished EvidenceRecord.kind
    (fun _ _ same => (recordDiffers_eq_false_iff.mp same).2.1) tail
  refine ⟨(recordDiffers_eq_false_iff.mp head).2.1 ▸ concludes.1, ?_⟩
  intro later member same
  have found : EvidenceKind.finalResult ∈ lefts.map EvidenceRecord.kind := by
    rw [kinds, ← same]
    exact List.mem_map_of_mem member
  obtain ⟨earlier, inside, kind⟩ := List.mem_map.mp found
  exact concludes.2 earlier inside kind

/-- From the end of both runs back to their beginning. -/
theorem sameEvidence_of_recognizable {a b : List EvidenceRecord}
    (recognizable : ∀ before record after, a = before ++ record :: after →
      Recognizable record after)
    (terminal : terminalPhase a = terminalPhase b) {lefts rights : List EvidenceRecord}
    (alike : List.Forall₂ (fun left right => recordDiffers left right = false) lefts rights)
    (before earlier : List EvidenceRecord) (whole : a = before ++ lefts)
    (other : b = earlier ++ rights) : SameEvidence lefts rights := by
  induction alike generalizing before earlier with
  | nil => exact .nil
  | @cons left right lefts rights head tail ih =>
      refine .cons ((recognizable before left lefts whole).same head ?_)
        (ih (before ++ [left]) (earlier ++ [right]) (by simp [whole]) (by simp [other]))
      intro concludes
      have copied := concludes_of_forall₂ head tail concludes
      rw [whole, other, concludes.terminalPhase_eq, copied.terminalPhase_eq] at terminal
      exact terminal.symm

theorem sameRecord_of_sameEvidence {before after : List EvidenceRecord}
    {record other : EvidenceRecord}
    (same : SameEvidence (before ++ record :: after) (before ++ other :: after)) :
    SameRecord record other := by
  have rest := List.forall₂_drop before.length same
  rw [List.drop_left, List.drop_left] at rest
  cases rest with
  | cons head _ => exact head

/-- A record with a double can be replaced by it. -/
theorem allSame_replace {record : EvidenceRecord} {others : Fields} {rest : Bytes}
    (before after : List EvidenceRecord)
    (columns : columnsText others rest = columnsText record.fields record.payload)
    (pinned : Concludes record after →
      others.getD (ascii "phase") [] = record.fields.getD (ascii "phase") []) :
    (compareRuns (before ++ record :: after)
      (before ++ { record with fields := others, payload := rest } :: after)).allSame = true := by
  have text : record.toText = { record with fields := others, payload := rest }.toText := by
    rw [toText_eq, toText_eq, columns]
  have alike : recordDiffers record { record with fields := others, payload := rest } = false :=
    recordDiffers_eq_false_iff.mpr ⟨rfl, rfl, rfl, text⟩
  have unchanged (records : List EvidenceRecord) :
      List.Forall₂ (fun left right => recordDiffers left right = false) records records :=
    List.forall₂_same.mpr fun ev _ => recordDiffers_eq_false_iff.mpr ⟨rfl, rfl, rfl, rfl⟩
  refine compareRuns_allSame_iff.mpr ⟨?_, terminalPhase_replace (by rfl) pinned before⟩
  exact List.rel_append (unchanged before) (.cons alike (unchanged after))

/-- A run is told from every other one by the comparison exactly when the fields and the payload
of each of its records are distinctive, those of the record with the terminal phase beside that
phase. -/
theorem compareRuns_sound_iff (a : List EvidenceRecord) :
    (∀ b, (compareRuns a b).allSame = true → SameEvidence a b) ↔
      ∀ before record after, a = before ++ record :: after → Recognizable record after := by
  constructor
  · intro sound before record after whole
    have double (others : Fields) (rest : Bytes)
        (columns : columnsText others rest = columnsText record.fields record.payload)
        (pinned : Concludes record after →
          others.getD (ascii "phase") [] = record.fields.getD (ascii "phase") []) :
        others = record.fields ∧ rest = record.payload := by
      have same := sound _ (whole ▸ allSame_replace before after columns pinned)
      rw [whole] at same
      obtain ⟨-, -, -, -, fields, payload⟩ := sameRecord_of_sameEvidence same
      exact ⟨fields.symm, payload.symm⟩
    constructor
    · intro _
      apply pinned_iff.mp
      intro others rest columns pinned
      exact double others rest columns fun _ => pinned
    · intro further
      apply undoubled_iff.mp
      intro others rest columns
      exact double others rest columns fun concludes => absurd concludes further
  · intro recognizable b allSame
    obtain ⟨alike, terminal⟩ := compareRuns_allSame_iff.mp allSame
    exact sameEvidence_of_recognizable recognizable terminal alike [] [] rfl rfl

/-- One field that is written like two. -/
theorem compareRuns_comma_in_value :
    ∃ a b : List EvidenceRecord, (compareRuns a b).allSame = true ∧ ¬ SameEvidence a b := by
  refine ⟨[{ fields := (∅ : Fields).insert (ascii "a") (ascii "1,b=2") }],
    [{ fields := ((∅ : Fields).insert (ascii "a") (ascii "1")).insert (ascii "b") (ascii "2") }],
    ?_, ?_⟩
  · rw [compareRuns_allSame_iff]
    refine ⟨.cons ?_ .nil, ?_⟩
    · decide +kernel
    · decide +kernel
  · intro same
    cases same with
    | cons head _ => exact absurd head.2.2.2.2.1 (by decide +kernel)

section Coverage

/-- The records agree on what the text form has of them. -/
def SameContents (left right : EvidenceRecord) : Prop :=
  left.seq = right.seq ∧ left.kind = right.kind ∧ left.phase = right.phase ∧
    left.fields = right.fields ∧ left.payload = right.payload

theorem digestInput_cons (ev : EvidenceRecord) (records : List EvidenceRecord) :
    digestInput (ev :: records) = ev.toText ++ Byte.newline :: digestInput records := by
  simp [digestInput, digestPieces]

/-- No id is in the bytes that are hashed. -/
theorem digestInput_renumber (ev : EvidenceRecord) (id : UInt64) (records : List EvidenceRecord) :
    digestInput ({ ev with id := id } :: records) = digestInput (ev :: records) := by
  rw [digestInput_cons, digestInput_cons]
  rfl

theorem newline_notMem_toText {ev : EvidenceRecord} (oneLine : Byte.newline ∉ ev.phase) :
    Byte.newline ∉ ev.toText := by
  have line := newline_notMem_lineText oneLine
  rw [lineText] at line
  exact fun inside => line (List.mem_append_right _ inside)

/-- The reader finds the same record in both lines. -/
theorem sameContents_of_toText {left right : EvidenceRecord} (leftNamed : left.kind ≠ .last)
    (rightNamed : right.kind ≠ .last)
    (leftPlain : Representable left.phase left.fields left.payload)
    (rightPlain : Representable right.phase right.fields right.payload)
    (same : left.toText = right.toText) : SameContents left right := by
  have read {ev : EvidenceRecord} (named : ev.kind ≠ .last)
      (plain : Representable ev.phase ev.fields ev.payload) :
      parseLine (trim (lineText { ev with id := 0, timestampNs := 0 })) =
        some { ev with id := 0, timestampNs := 0 } := by
    rw [parseLine_trim_lineText_iff]
    · exact plain
    · exact named
    · rfl
    · exact plain.phaseNewline
  have text (ev : EvidenceRecord) : { ev with id := 0, timestampNs := 0 }.toText = ev.toText := rfl
  have lines : lineText { left with id := 0, timestampNs := 0 } =
      lineText { right with id := 0, timestampNs := 0 } := by
    rw [lineText, lineText, text, text, same]
  have records := read leftNamed leftPlain
  rw [lines, read rightNamed rightPlain, Option.some.injEq, EvidenceRecord.mk.injEq] at records
  obtain ⟨-, kind, seq, -, phase, fields, payload⟩ := records
  exact ⟨seq.symm, kind.symm, phase.symm, fields.symm, payload.symm⟩

theorem forall₂_sameContents {a b : List EvidenceRecord}
    (left : ∀ ev ∈ a, ev.kind ≠ .last ∧ Representable ev.phase ev.fields ev.payload)
    (right : ∀ ev ∈ b, ev.kind ≠ .last ∧ Representable ev.phase ev.fields ev.payload)
    (same : digestInput a = digestInput b) : List.Forall₂ SameContents a b := by
  induction a generalizing b with
  | nil =>
      cases b with
      | nil => exact .nil
      | cons ev b =>
          rw [digestInput_cons] at same
          have lengths := congrArg List.length same
          simp [digestInput, digestPieces] at lengths
  | cons ev a ih =>
      cases b with
      | nil =>
          rw [digestInput_cons] at same
          have lengths := congrArg List.length same
          simp [digestInput, digestPieces] at lengths
      | cons other b =>
          rw [List.forall_mem_cons] at left right
          have cuts := congrArg (cutAt Byte.newline) same
          rw [digestInput_cons, digestInput_cons,
            cutAt_append (newline_notMem_toText left.1.2.phaseNewline),
            cutAt_append (newline_notMem_toText right.1.2.phaseNewline)] at cuts
          obtain ⟨texts, rest⟩ := Prod.mk.inj (Option.some.inj cuts)
          exact .cons (sameContents_of_toText left.1.1 right.1.1 left.1.2 right.1.2 texts)
            (ih left.2 right.2 rest)

/-- The bytes that are hashed tell a run from all others only if there is nothing in it: they
have no id. What else is in representable records they do tell. -/
theorem digestInput_coverage (a : List EvidenceRecord) :
    ((∀ b, digestInput a = digestInput b → SameEvidence a b) ↔ a = []) ∧
      ∀ b, (∀ ev ∈ a, ev.kind ≠ .last ∧ Representable ev.phase ev.fields ev.payload) →
        (∀ ev ∈ b, ev.kind ≠ .last ∧ Representable ev.phase ev.fields ev.payload) →
        digestInput a = digestInput b → List.Forall₂ SameContents a b := by
  refine ⟨?_, fun b left right same => forall₂_sameContents left right same⟩
  constructor
  · intro covers
    cases a with
    | nil => rfl
    | cons ev rest =>
        have same := covers _ (digestInput_renumber ev (ev.id + 1) rest).symm
        cases same with
        | cons head _ =>
            have ids : ev.id = ev.id + 1 := head.1
            simp at ids
  · intro empty b same
    rw [empty] at same ⊢
    cases b with
    | nil => exact .nil
    | cons ev rest =>
        rw [digestInput_cons] at same
        have lengths := congrArg List.length same
        simp [digestInput, digestPieces] at lengths

theorem digestInput_other_id :
    ∃ a b : List EvidenceRecord, digestInput a = digestInput b ∧ ¬ SameEvidence a b := by
  refine ⟨[{ id := 1 }], [{ id := 2 }], digestInput_renumber { id := 2 } 1 [], ?_⟩
  intro same
  cases same with
  | cons head _ => exact absurd head.1 (by decide)

end Coverage

end ChaosLab

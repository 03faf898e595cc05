import ChaosLab.EvidenceRoundTrip
import ChaosLab.Replay

/-! Saved evidence replays: what the writer wrote, the reader, the digest and
the comparison agree on. -/

set_option autoImplicit false

namespace ChaosLab

open EvidenceRecorder

@[simp] theorem Digest256.equal_self (digest : Digest256) : digest.equal digest = true := by
  simp [Digest256.equal]

theorem recordDifferences_self (index : Nat) (records : List EvidenceRecord) :
    recordDifferences index records records = [] := by
  induction records generalizing index with
  | nil => rfl
  | cons ev records ih => simp [recordDifferences, recordDiffers, ih]

theorem compareRuns_self (records : List EvidenceRecord) :
    (compareRuns records records).allSame = true ∧
      (compareRuns records records).differences = [] := by
  simp [compareRuns, ReplayReport.allSame, recordDifferences_self]

theorem records_recordRawAll (records : List EvidenceRecord) :
    (recordRawAll records).records = records := by
  have grows : ∀ (later : List EvidenceRecord) (recorder : EvidenceRecorder),
      (later.foldl recordRaw recorder).records = recorder.records ++ later := by
    intro later
    induction later with
    | nil => simp
    | cons ev later ih => simp [ih, recordRaw]
  simpa [recordRawAll] using grows records {}

theorem digest_recordRawAll (recorder : EvidenceRecorder) :
    (recordRawAll recorder.records).digest = recorder.digest := by
  simp only [digest, records_recordRawAll]

theorem escapeFree_of_notMem {text : Bytes} (plain : Byte.backslash ∉ text) :
    EscapeFree text :=
  ⟨fun inside => plain (inside.subset (.head _)), fun inside => plain (inside.subset (.head _))⟩

theorem isblank_iff {byte : UInt8} : isblank byte = true ↔ byte ∈ ascii " \t\x0b\x0c" := by
  revert byte
  decide +kernel

/-- The arguments that campaigns record: no delimiter of their column and no
backslash, and no blank at the end of a payload. -/
structure Plain (call : RecordCall) : Prop where
  kind : call.kind ≠ .last
  phase : Byte.pipe ∉ call.phase ∧ Byte.backslash ∉ call.phase ∧ Byte.newline ∉ call.phase
  key : ∀ entry ∈ call.fields.toList, Byte.pipe ∉ entry.1 ∧ Byte.comma ∉ entry.1 ∧
    Byte.equals ∉ entry.1 ∧ Byte.backslash ∉ entry.1
  value : ∀ entry ∈ call.fields.toList, Byte.pipe ∉ entry.2 ∧ Byte.backslash ∉ entry.2 ∧
    Byte.comma ∉ entry.2
  payload : Byte.pipe ∉ call.payload ∧ Byte.backslash ∉ call.payload
  payloadEnd : ∀ last ∈ call.payload.getLast?, last ∉ ascii " \t\x0b\x0c"

theorem Plain.representable {call : RecordCall} (plain : Plain call) :
    Representable call.phase call.fields call.payload where
  phasePipe := plain.phase.1
  phaseNewline := plain.phase.2.2
  phaseEscape := escapeFree_of_notMem plain.phase.2.1
  fieldPipe entry member := ⟨(plain.key entry member).1, (plain.value entry member).1⟩
  field entry member := {
    keyComma := (plain.key entry member).2.1
    keyEquals := (plain.key entry member).2.2.1
    keyEscape := escapeFree_of_notMem (plain.key entry member).2.2.2
    valueComma := (plain.value entry member).2.2
    valueEscape := escapeFree_of_notMem (plain.value entry member).2.1 }
  payloadPipe := plain.payload.1
  payloadEscape := escapeFree_of_notMem plain.payload.2
  payloadEnd last member := by
    have outside := plain.payloadEnd last member
    rwa [← isblank_iff, Bool.not_eq_true] at outside

/-- Save and replay: the saved text parses, its records replay to the recorder's
digest, and comparing them with the originals finds no difference. -/
theorem save_replay_closure (calls : List RecordCall) (plain : ∀ call ∈ calls, Plain call) :
    ∃ parsed, parseText (recordAll calls).serializeText = (true, parsed) ∧
      (replayEvidence parsed (recordAll calls).digest).sameStateDigest = true ∧
      (compareRuns (recordAll calls).records parsed).allSame = true ∧
      (compareRuns (recordAll calls).records parsed).differences = [] := by
  have named : ∀ ev ∈ (recordAll calls).records, ev.kind ≠ .last :=
    forall_recordAll.mpr fun call member => (plain call member).kind
  have representable : ∀ ev ∈ (recordAll calls).records,
      Representable ev.phase ev.fields ev.payload :=
    forall_recordAll.mpr fun call member => (plain call member).representable
  refine ⟨(recordAll calls).records, ?_, ?_, compareRuns_self _⟩
  · exact (parseText_lines_eq_iff named (recordAll_spec calls).2).mpr representable
  · simp [replayEvidence, digest_recordRawAll]

/-- A state snapshot with a line break and an equality sign, as the multiprocess
campaign records it, is replayed. -/
theorem save_replay_closure_state_snapshot :
    let calls : List RecordCall := [
      { kind := .stateSnapshot, phase := ascii "recovering"
        fields := (∅ : Fields).insert (ascii "state") (ascii "epoch=1;attempt=2\ncommitted=1") },
      { kind := .finalResult, phase := ascii "complete"
        fields := (∅ : Fields).insert (ascii "phase") (ascii "complete") }]
    ∃ parsed, parseText (recordAll calls).serializeText = (true, parsed) ∧
      (replayEvidence parsed (recordAll calls).digest).sameStateDigest = true ∧
      (compareRuns (recordAll calls).records parsed).allSame = true ∧
      (compareRuns (recordAll calls).records parsed).differences = [] := by
  refine save_replay_closure _ fun call member => ?_
  simp only [List.mem_cons, List.not_mem_nil, or_false] at member
  rcases member with rfl | rfl
  · constructor <;> decide +kernel
  · constructor <;> decide +kernel

end ChaosLab

import ChaosLab.Digest
import ChaosLab.Foundation.Delimited

/-! Evidence records, their text form, the recorder and the text parser of
`evidence.cpp`. The recorder's mutex makes each call atomic; its JSON form is
not part of this file. -/

set_option autoImplicit false

namespace ChaosLab

open Foundation

inductive EvidenceKind where
  | campaignDefinition | processLaunch | processExit | stdoutStderr | protocolEvent
  | injection | assertion | stateSnapshot | authorityEnvelope | persistenceDigest
  | recoveryEvent | cleanup | finalResult | machineInfo | targetVersion | seed | misc
  | last
deriving DecidableEq, Repr

def EvidenceKind.named : List EvidenceKind := [
  .campaignDefinition, .processLaunch, .processExit, .stdoutStderr, .protocolEvent,
  .injection, .assertion, .stateSnapshot, .authorityEnvelope, .persistenceDigest,
  .recoveryEvent, .cleanup, .finalResult, .machineInfo, .targetVersion, .seed, .misc]

def kindNames : List Bytes := [
  ascii "campaign_definition", ascii "process_launch", ascii "process_exit",
  ascii "stdout_stderr", ascii "protocol_event", ascii "injection", ascii "assertion",
  ascii "state_snapshot", ascii "authority_envelope", ascii "persistence_digest",
  ascii "recovery_event", ascii "cleanup", ascii "final_result", ascii "machine_info",
  ascii "target_version", ascii "seed", ascii "misc"]

def evidenceKindName (kind : EvidenceKind) : Bytes :=
  kindNames.getD (EvidenceKind.named.idxOf kind) (ascii "unknown")

/-- The kind search of `parse_text`; an unknown name keeps the default `MISC`. -/
def kindOfName (name : Bytes) : EvidenceKind :=
  EvidenceKind.named.getD (kindNames.idxOf name) .misc

def escByte (byte : UInt8) : Bytes :=
  if byte = Byte.newline then [Byte.backslash, Byte.letterN]
  else if byte = Byte.carriageReturn then [Byte.backslash, Byte.letterR]
  else if byte = Byte.pipe then [Byte.backslash, Byte.pipe]
  else [byte]

/-- `esc`. A backslash is not escaped. -/
def esc (text : Bytes) : Bytes := text.flatMap escByte

/-- `unesc`. A backslash before any other character stands for itself. -/
def unesc : Bytes → Bytes
  | [] => []
  | [byte] => [byte]
  | byte :: next :: rest =>
      if byte = Byte.backslash then
        if next = Byte.letterN then Byte.newline :: unesc rest
        else if next = Byte.letterR then Byte.carriageReturn :: unesc rest
        else if next = Byte.pipe then Byte.pipe :: unesc rest
        else byte :: unesc (next :: rest)
      else
        byte :: unesc (next :: rest)

abbrev Fields := Std.ExtTreeMap Bytes Bytes

structure EvidenceRecord where
  id : UInt64 := 0
  kind : EvidenceKind := .misc
  seq : Int64 := 0
  timestampNs : UInt64 := 0
  phase : Bytes := []
  fields : Fields := ∅
  payload : Bytes := []
deriving DecidableEq

def EvidenceRecord.fieldOr (record : EvidenceRecord) (key fallback : Bytes) : Bytes :=
  record.fields.getD key fallback

def fieldsText (first : Bool) : List (Bytes × Bytes) → Bytes
  | [] => []
  | (key, value) :: rest =>
      (if first then [] else [Byte.comma]) ++ esc key ++ [Byte.equals] ++ esc value ++
        fieldsText false rest

/-- `EvidenceRecord::to_text`. The phase is written as it is. -/
def EvidenceRecord.toText (record : EvidenceRecord) : Bytes :=
  toHex record.seq.toUInt64 ++ [Byte.pipe] ++ evidenceKindName record.kind ++ [Byte.pipe] ++
    record.phase ++ [Byte.pipe] ++ fieldsText true record.fields.toList ++ [Byte.pipe] ++
    esc record.payload

structure EvidenceRecorder where
  records : List EvidenceRecord := []
  nextSeq : Int64 := 0
deriving DecidableEq

structure RecordCall where
  kind : EvidenceKind
  phase : Bytes
  fields : Fields := ∅
  payload : Bytes := []
deriving DecidableEq

namespace EvidenceRecorder

/-- The record that `record` makes of its arguments; no timestamp is taken. -/
def newRecord (recorder : EvidenceRecorder) (call : RecordCall) : EvidenceRecord where
  id := (recorder.nextSeq + 1).toUInt64
  kind := call.kind
  seq := recorder.nextSeq
  phase := call.phase
  fields := call.fields
  payload := call.payload

def record (recorder : EvidenceRecorder) (call : RecordCall) : EvidenceRecorder where
  records := recorder.records ++ [recorder.newRecord call]
  nextSeq := recorder.nextSeq + 1

def recordRaw (recorder : EvidenceRecorder) (ev : EvidenceRecord) : EvidenceRecorder where
  records := recorder.records ++ [ev]
  nextSeq := if recorder.nextSeq ≤ ev.seq then ev.seq + 1 else recorder.nextSeq

def recordAll (calls : List RecordCall) : EvidenceRecorder := calls.foldl record {}

def recordRawAll (records : List EvidenceRecord) : EvidenceRecorder :=
  records.foldl recordRaw {}

def lineText (ev : EvidenceRecord) : Bytes := toHex ev.id ++ [Byte.colon] ++ ev.toText

def serializeText (recorder : EvidenceRecorder) : Bytes :=
  recorder.records.flatMap fun ev => lineText ev ++ [Byte.newline]

def digest (recorder : EvidenceRecorder) : Digest256 :=
  (recorder.records.foldl (fun hash ev => (hash.update ev.toText).update [Byte.newline])
    Sha256.reset).finish

/-- The item loop of `parse_text`; a repeated key keeps its last value. -/
def parseFields (fields : Fields) : List Bytes → Option Fields
  | [] => some fields
  | item :: items =>
      match cutAt Byte.equals item with
      | none => none
      | some (key, value) => parseFields (fields.insert (unesc key) (unesc value)) items

def parseFieldsColumn (column : Bytes) : Option Fields :=
  if column = [] then some ∅ else parseFields ∅ (split column Byte.comma)

def parseLine (line : Bytes) : Option EvidenceRecord := do
  let (idText, rest) ← cutAt Byte.colon line
  let id ← fromHex idText
  let [seqText, kindText, phaseText, fieldsColumn, payloadText] := split rest Byte.pipe
    | none
  let seq ← fromHex seqText
  let fields ← parseFieldsColumn fieldsColumn
  return {
    id := id
    kind := kindOfName kindText
    seq := seq.toInt64
    phase := unesc phaseText
    fields := fields
    payload := unesc payloadText }

/-- The loop of `parse_text` over the pieces between newlines. The second
component is `out`, which keeps what was read before a failure. -/
def parsePieces : List Bytes → Bool × List EvidenceRecord
  | [] => (true, [])
  | piece :: pieces =>
      if trim piece = [] then
        parsePieces pieces
      else
        match parseLine (trim piece) with
        | none => (false, [])
        | some ev => ((parsePieces pieces).1, ev :: (parsePieces pieces).2)

/-- `parse_text`. The scan never visits the empty piece after a final newline;
visiting it here changes nothing, since blank pieces are skipped. -/
def parseText (text : Bytes) : Bool × List EvidenceRecord :=
  parsePieces (text.splitOn Byte.newline)

end EvidenceRecorder

end ChaosLab

import ChaosLab.Evidence

/-! The JSON form of the recorded evidence. -/

set_option autoImplicit false

namespace ChaosLab

namespace Byte

def quote : UInt8 := 0x22
def zero : UInt8 := 0x30
def openBracket : UInt8 := 0x5b
def closeBracket : UInt8 := 0x5d
def letterU : UInt8 := 0x75
def openBrace : UInt8 := 0x7b
def closeBrace : UInt8 := 0x7d

end Byte

def jsonEscapeByte (byte : UInt8) : Bytes :=
  if byte = Byte.quote then [Byte.backslash, Byte.quote]
  else if byte = Byte.backslash then [Byte.backslash, Byte.backslash]
  else if byte < 0x20 then
    [Byte.backslash, Byte.letterU, Byte.zero, Byte.zero,
      hexDigits.getD ((byte >>> 4) &&& 15).toNat 0, hexDigits.getD (byte &&& 15).toNat 0]
  else [byte]

def jsonEscape (text : Bytes) : Bytes := text.flatMap jsonEscapeByte

/-- `json_field`. Only the value is escaped. -/
def jsonField (name value : Bytes) : Bytes :=
  [Byte.quote] ++ name ++ [Byte.quote] ++ [Byte.colon] ++ [Byte.quote] ++ jsonEscape value ++
    [Byte.quote]

def jsonNumber (name : Bytes) (v : UInt64) : Bytes :=
  [Byte.quote] ++ name ++ [Byte.quote] ++ [Byte.colon] ++ toString v

/-- The inner loop of `serialize_json`. -/
def jsonFields (first : Bool) : List (Bytes × Bytes) → Bytes
  | [] => []
  | (key, value) :: rest =>
      (if first then [] else [Byte.comma]) ++ jsonField key value ++ jsonFields false rest

/-- One round of the outer loop. -/
def jsonRecord (ev : EvidenceRecord) : Bytes :=
  [Byte.openBrace] ++ jsonNumber (ascii "id") ev.id ++ [Byte.comma] ++
    jsonNumber (ascii "seq") ev.seq.toUInt64 ++ [Byte.comma] ++
    jsonField (ascii "kind") (evidenceKindName ev.kind) ++ [Byte.comma] ++
    jsonField (ascii "phase") ev.phase ++ [Byte.comma] ++
    jsonNumber (ascii "timestamp_ns") ev.timestampNs ++ [Byte.comma] ++
    [Byte.quote] ++ ascii "fields" ++ [Byte.quote] ++ [Byte.colon] ++
    [Byte.openBrace] ++ jsonFields true ev.fields.toList ++ [Byte.closeBrace] ++ [Byte.comma] ++
    jsonField (ascii "payload") ev.payload ++ [Byte.closeBrace]

def jsonRecords (first : Bool) : List EvidenceRecord → Bytes
  | [] => []
  | ev :: rest => (if first then [] else [Byte.comma]) ++ jsonRecord ev ++ jsonRecords false rest

def EvidenceRecorder.serializeJson (recorder : EvidenceRecorder) : Bytes :=
  [Byte.openBracket] ++ jsonRecords true recorder.records ++ [Byte.closeBracket]

end ChaosLab

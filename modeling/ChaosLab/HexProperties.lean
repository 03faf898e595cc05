import ChaosLab.AuthorityProperties
import ChaosLab.EvidenceLines
import ChaosLab.IdentityProperties

/-! Where hexadecimal text is read as the number it denotes. The bits of a number that is too
large are shifted out, so some texts are read as a number they do not denote. -/

set_option autoImplicit false

namespace ChaosLab

open Foundation EvidenceRecorder

/-- The text is read as the number its digits denote, and not read if that is too large. -/
def ReadsExactly (text : Bytes) (read : Option UInt64) : Prop :=
  (∀ value, read = some value → value.toNat = hexValue text) ∧
    (HexText text → 2 ^ 64 ≤ hexValue text → read = none)

/-- The number fits into a word, if there are only digits. -/
def Fits (text : Bytes) : Prop := HexText text → hexValue text < 2 ^ 64

section Words

theorem toNat_eq_hexValue_iff {text : Bytes} {value : UInt64}
    (read : fromHex text = some value) : value.toNat = hexValue text ↔ Fits text := by
  obtain ⟨hex, denoted⟩ := fromHex_eq_some_iff.mp read
  constructor
  · intro same _
    rw [← same]
    exact value.toNat_lt
  · intro fits
    rw [denoted, UInt64.toNat_ofNat_of_lt' (fits hex)]

theorem readsExactly_iff (text : Bytes) : ReadsExactly text (fromHex text) ↔ Fits text := by
  constructor
  · intro exactly hex
    by_contra large
    have rejected := exactly.2 hex (Nat.le_of_not_lt large)
    rw [fromHex_eq_some hex.1 hex.2] at rejected
    cases rejected
  · intro fits
    constructor
    · intro value read
      exact (toNat_eq_hexValue_iff read).mpr fits
    · intro hex large
      exact absurd (fits hex) (Nat.not_lt.mpr large)

end Words

section Identifiers

/-- The digits of the text of an identifier, where its name is that of the kind. -/
def idDigits (kind : IdKind) (text : Bytes) : Option Bytes :=
  match cutAt Byte.colon text with
  | none => some text
  | some (name, digits) => if name ≠ idKindName kind then none else some digits

theorem parse_of_idDigits {kind : IdKind} {text digits : Bytes}
    (found : idDigits kind text = some digits) :
    (Id.parse text : Option (Id kind)) = (fromHex digits).map Id.mk := by
  unfold idDigits at found
  unfold Id.parse
  cases cut : cutAt Byte.colon text with
  | none =>
      rw [cut] at found
      rw [Option.some.inj found]
  | some parts =>
      rw [cut] at found
      dsimp only at found ⊢
      split at found
      · cases found
      · rename_i named
        rw [if_neg named, Option.some.inj found]

theorem readsExactly_parse_iff {kind : IdKind} {text digits : Bytes}
    (found : idDigits kind text = some digits) :
    ReadsExactly digits ((Id.parse text : Option (Id kind)).map Id.value) ↔ Fits digits := by
  have read : ((Id.parse text : Option (Id kind)).map Id.value) = fromHex digits := by
    rw [parse_of_idDigits found, Option.map_map]
    exact Option.map_id_apply
  rw [read, readsExactly_iff]

end Identifiers

section Authorities

open AuthorityEnvelope

theorem fits_of_map_eq {digits : List Bytes} :
    (digits.map fun each => hexValue each % 2 ^ 64) = digits.map hexValue ↔
      ∀ each ∈ digits, hexValue each < 2 ^ 64 := by
  rw [List.map_inj_left]
  apply forall₂_congr
  intro each _
  rw [Nat.mod_eq_iff_lt (by decide)]

/-- The seven values are the numbers their digits denote, and none of these is too large. -/
def AuthorityReadsExactly (text : Bytes) (digits : List Bytes) : Prop :=
  ((parse text).1.code = .ok → (parse text).2.values.map UInt64.toNat = digits.map hexValue) ∧
    ((∃ each ∈ digits, 2 ^ 64 ≤ hexValue each) → (parse text).1.code ≠ .ok)

theorem authorityReadsExactly_iff {text : Bytes} {digits : List Bytes}
    (writes : Writes text digits) :
    AuthorityReadsExactly text digits ↔ ∀ each ∈ digits, Fits each := by
  have accepted : (parse text).1.code = .ok := by rw [parse_of_writes writes]
  have fit : (∀ each ∈ digits, Fits each) ↔ ∀ each ∈ digits, hexValue each < 2 ^ 64 := by
    apply forall₂_congr
    intro each member
    exact forall_prop_of_true (writes.hexadecimal each member)
  rw [fit, AuthorityReadsExactly, values_of_writes writes, ← fits_of_map_eq]
  constructor
  · intro exactly
    exact exactly.1 accepted
  · intro same
    refine ⟨fun _ => same, ?_⟩
    intro large
    obtain ⟨each, member, tooLarge⟩ := large
    exact absurd (fits_of_map_eq.mp same each member) (Nat.not_lt.mpr tooLarge)

end Authorities

section Evidence

/-- The id and the number of the record are those of its line. -/
def LineReadsExactly (line : Bytes) (ev : EvidenceRecord) : Prop :=
  ∀ columns, lineColumns line = some columns →
    ev.id.toNat = hexValue columns.id ∧ ev.seq.toUInt64.toNat = hexValue columns.seq

def LineFits (line : Bytes) : Prop :=
  ∀ columns, lineColumns line = some columns → Fits columns.id ∧ Fits columns.seq

theorem lineReadsExactly_iff {line : Bytes} {ev : EvidenceRecord}
    (accepted : parseLine line = some ev) : LineReadsExactly line ev ↔ LineFits line := by
  rw [parseLine_eq] at accepted
  obtain ⟨columns, found, read⟩ := Option.bind_eq_some_iff.mp accepted
  obtain ⟨id, seq, fields, idRead, seqRead, -, rfl⟩ := LineColumns.read_eq_some_iff.mp read
  unfold LineReadsExactly LineFits
  rw [found]
  simp only [Option.some.injEq, forall_eq', UInt64.toUInt64_toInt64,
    toNat_eq_hexValue_iff idRead, toNat_eq_hexValue_iff seqRead]

theorem linesReadExactly_iff {text : Bytes} {records : List EvidenceRecord}
    (accepted : parseText text = (true, records)) :
    List.Forall₂ LineReadsExactly (evidenceLines text) records ↔
      ∀ line ∈ evidenceLines text, LineFits line := by
  rw [parseText_eq_iff] at accepted
  generalize evidenceLines text = lines at accepted
  induction accepted with
  | nil => simp
  | cons head _ ih => rw [List.forall₂_cons, List.forall_mem_cons, ih, lineReadsExactly_iff head]

end Evidence

/-- Each of the readers reads exactly what is denoted where that fits into a word, and only
there. -/
theorem hex_reads_exactly_iff (text : Bytes) :
    (ReadsExactly text (fromHex text) ↔ Fits text) ∧
    (∀ kind digits, idDigits kind text = some digits →
      (ReadsExactly digits ((Id.parse text : Option (Id kind)).map Id.value) ↔ Fits digits)) ∧
    (∀ digits, AuthorityEnvelope.Writes text digits →
      (AuthorityReadsExactly text digits ↔ ∀ each ∈ digits, Fits each)) ∧
    ∀ records, parseText text = (true, records) →
      (List.Forall₂ LineReadsExactly (evidenceLines text) records ↔
        ∀ line ∈ evidenceLines text, LineFits line) :=
  ⟨readsExactly_iff text, fun _ _ => readsExactly_parse_iff, fun _ => authorityReadsExactly_iff,
    fun _ => linesReadExactly_iff⟩

/-- Seventeen digits. -/
theorem seventeen_digits_read_as_zero :
    fromHex (ascii "10000000000000000") = some 0 ∧
      ¬ ReadsExactly (ascii "10000000000000000") (fromHex (ascii "10000000000000000")) := by
  have read : fromHex (ascii "10000000000000000") = some 0 := by decide +kernel
  refine ⟨read, ?_⟩
  intro exactly
  have same := exactly.1 0 read
  revert same
  decide +kernel

end ChaosLab

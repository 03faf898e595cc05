import ChaosLab.Persistence

/-! Which bytes of a file a mutation changes. -/

set_option autoImplicit false

namespace ChaosLab

open Foundation

/-- A file. Its size fits into a `std::streamoff`. -/
structure DiskFile where
  bytes : Bytes
  sized : bytes.length < 2 ^ 63

namespace PersistenceMutation

section Conversions

theorem streamoff_eq (offset : UInt64) :
    streamoff offset =
      if 2 * offset.toNat < 2 ^ 64 then (offset.toNat : Int) else offset.toNat - (2 ^ 64 : Nat) :=
  BitVec.toInt_eq_toNat_cond offset.toBitVec

theorem streamoff_of_lt {offset : UInt64} (small : offset.toNat < 2 ^ 63) :
    streamoff offset = offset.toNat := by
  rw [streamoff_eq, if_pos (by omega)]

theorem streamoff_neg {offset : UInt64} (large : 2 ^ 63 ≤ offset.toNat) :
    streamoff offset < 0 := by
  have bound := offset.toNat_lt
  rw [streamoff_eq, if_neg (by omega)]
  omega

theorem toNat_size (file : DiskFile) :
    (UInt64.ofNat file.bytes.length).toNat = file.bytes.length := by
  have sized := file.sized
  rw [UInt64.toNat_ofNat']
  exact Nat.mod_eq_of_lt (by omega)

/-- A range has one byte at least. -/
theorem toNat_length (m : PersistenceMutation) :
    (if m.length ≠ 0 then m.length else 1).toNat = max m.length.toNat 1 := by
  by_cases zero : m.length = 0
  · simp [zero]
  · have positive : m.length.toNat ≠ 0 := fun same => zero (UInt64.toNat_inj.mp same)
    rw [if_pos zero]
    omega

end Conversions

section Xor

/-- The content with the bytes of a range XORed, as far as there are any. -/
def xorRange (content : Bytes) (first count : Nat) : Bytes :=
  content.mapIdx fun i byte => if first ≤ i ∧ i < first + count then byte ^^^ 0xa5 else byte

variable {content : Bytes} {first count : Nat}

theorem getElem?_xorRange (i : Nat) :
    (xorRange content first count)[i]? =
      content[i]?.map fun byte => if first ≤ i ∧ i < first + count then byte ^^^ 0xa5 else byte :=
  List.getElem?_mapIdx

@[simp] theorem length_xorRange : (xorRange content first count).length = content.length :=
  List.length_mapIdx

theorem xorRange_xorRange : xorRange (xorRange content first count) first count = content := by
  apply List.ext_getElem?
  intro i
  rw [getElem?_xorRange, getElem?_xorRange, Option.map_map]
  by_cases inside : first ≤ i ∧ i < first + count
  · simp [inside, Function.comp_def]
  · simp [inside, Function.comp_def]

/-- The part of a range that is past the end has no effect. -/
theorem xorRange_min (below : first ≤ content.length) :
    xorRange content first (min count (content.length - first)) = xorRange content first count := by
  apply List.ext_getElem?
  intro i
  rw [getElem?_xorRange, getElem?_xorRange]
  by_cases inside : i < content.length
  · have same : first ≤ i ∧ i < first + min count (content.length - first) ↔
        first ≤ i ∧ i < first + count := by omega
    simp only [same]
  · rw [List.getElem?_eq_none (Nat.le_of_not_lt inside)]
    rfl

theorem overwrite_xor (within : first + count ≤ content.length) :
    overwrite 0 content first (((content.drop first).take count).map fun byte => byte ^^^ 0xa5) =
      xorRange content first count := by
  have full : ((content.drop first).take count).length = count := by
    rw [List.length_take, List.length_drop]
    omega
  apply List.ext_getElem?
  intro i
  rw [getElem?_overwrite 0 (by omega), getElem?_xorRange, List.length_map, full]
  by_cases inside : first ≤ i ∧ i < first + count
  · have place : first + (i - first) = i := by omega
    rw [if_pos inside, List.getElem?_map, List.getElem?_take_of_lt (by omega), List.getElem?_drop,
      place]
    simp [inside]
  · simp [inside]

theorem xor_ne (byte : UInt8) : byte ^^^ 0xa5 ≠ byte := by
  intro same
  simp at same

/-- Ranges that end at different places of the content have different effects. -/
theorem count_le_of_xorRange_eq {other : Nat} (below : first < content.length)
    (same : xorRange content first count = xorRange content first other) :
    min count (content.length - first) ≤ other := by
  by_contra shorter
  have place : first + other < content.length := by omega
  have here := congrArg (fun bytes : Bytes => bytes[first + other]?) same
  rw [getElem?_xorRange, getElem?_xorRange, List.getElem?_eq_getElem place, Option.map_some,
    Option.map_some, if_pos (by omega), if_neg (by omega)] at here
  exact xor_ne _ (Option.some.inj here)

end Xor

/-- The stream that the mutations work on. -/
def opened (content : Bytes) : FileStream UInt8 :=
  { content := content, position := content.length }

/-- What a mutation leaves of a file that it could open. -/
def left (result : Status × FileStream UInt8) : Status × Option Bytes :=
  (result.1, some result.2.content)

section Kinds

variable (path content : Bytes) {m : PersistenceMutation}

theorem applyMutation_corruptBytes (kind : m.kind = .corruptBytes) :
    applyMutation path (some content) m =
      left (applyCorruptBytes (opened content) (UInt64.ofNat content.length) m) := by
  simp only [applyMutation, kind]
  rfl

theorem applyMutation_overwriteMagic (kind : m.kind = .overwriteMagic) :
    applyMutation path (some content) m =
      left (applyOverwriteMagic (opened content) (UInt64.ofNat content.length)) := by
  simp only [applyMutation, kind]
  rfl

theorem applyMutation_overwriteVersion (kind : m.kind = .overwriteVersion) :
    applyMutation path (some content) m =
      left (applyOverwriteVersion (opened content) (UInt64.ofNat content.length) m) := by
  simp only [applyMutation, kind]
  rfl

theorem applyMutation_zeroRange (kind : m.kind = .zeroRange) :
    applyMutation path (some content) m =
      left (applyZeroRange (opened content) (UInt64.ofNat content.length) m) := by
  simp only [applyMutation, kind]
  rfl

end Kinds

section Corruption

variable {m : PersistenceMutation}

/-- The buffer has 64 bytes at most. -/
theorem toNat_buffer (m : PersistenceMutation) :
    (if (if m.length ≠ 0 then m.length else 1) < 64 then (if m.length ≠ 0 then m.length else 1)
      else 64).toNat = min (max m.length.toNat 1) 64 := by
  rw [← toNat_length m]
  generalize (if m.length ≠ 0 then m.length else 1) = len
  have whole : (64 : UInt64).toNat = 64 := rfl
  by_cases short : len < 64
  · rw [if_pos short]
    rw [UInt64.lt_iff_toNat_lt, whole] at short
    omega
  · rw [if_neg short, whole]
    rw [UInt64.lt_iff_toNat_lt, whole] at short
    omega

theorem read_opened (content : Bytes) (first count : Nat) :
    ((opened content).seek first).read count =
      ((content.drop first).take count,
        { content := content, position := first + ((content.drop first).take count).length
          good := ((content.drop first).take count).length = count }) := by
  have sound : (opened content).good = true := rfl
  rw [FileStream.seek_of_nonneg sound]
  rfl

theorem size_le_offset_iff {file : DiskFile} :
    m.offset ≥ UInt64.ofNat file.bytes.length ↔ file.bytes.length ≤ m.offset.toNat := by
  rw [ge_iff_le, UInt64.le_iff_toNat_le, toNat_size]

/-- An offset inside the file is where the stream goes. -/
theorem place_of_below {file : DiskFile} (below : m.offset.toNat < file.bytes.length) :
    ¬ m.offset ≥ UInt64.ofNat file.bytes.length ∧ streamoff m.offset = m.offset.toNat := by
  have sized := file.sized
  rw [size_le_offset_iff]
  exact ⟨Nat.not_le_of_lt below, streamoff_of_lt (by omega)⟩

/-- The buffer is filled from the file and written back, or the stream runs out in
front of the end of the buffer and nothing is written. -/
theorem applyMutation_below (path : Bytes) (kind : m.kind = .corruptBytes) (file : DiskFile)
    (below : m.offset.toNat < file.bytes.length) :
    applyMutation path (some file.bytes) m =
      if min (max m.length.toNat 1) 64 ≤ file.bytes.length - m.offset.toNat then
        ({}, some (xorRange file.bytes m.offset.toNat (min (max m.length.toNat 1) 64)))
      else (ioError (ascii "corrupt write failed"), some file.bytes) := by
  obtain ⟨inside, place⟩ := place_of_below below
  rw [applyMutation_corruptBytes path _ kind]
  simp only [applyCorruptBytes, if_neg inside]
  rw [toNat_buffer, place, read_opened]
  generalize min (max m.length.toNat 1) 64 = count
  have got : ((file.bytes.drop m.offset.toNat).take count).length =
      min count (file.bytes.length - m.offset.toNat) := by
    rw [List.length_take, List.length_drop]
  by_cases enough : count ≤ file.bytes.length - m.offset.toNat
  · have full : decide (((file.bytes.drop m.offset.toNat).take count).length = count) = true := by
      rw [got, decide_eq_true_eq]
      omega
    rw [if_pos enough, full, FileStream.seek_of_nonneg rfl, FileStream.write_of_good rfl, written,
      if_pos rfl, left]
    exact congrArg (fun after => (_, some after)) (overwrite_xor (by omega))
  · have short : decide (((file.bytes.drop m.offset.toNat).take count).length = count) = false := by
      rw [got, decide_eq_false_iff_not]
      omega
    rw [if_neg enough, short, FileStream.seek_of_failed rfl, FileStream.write_of_failed _ rfl,
      written, if_neg Bool.false_ne_true, left]

/-- The mutation hits the range it asks for, and a second time takes it back. -/
def CorruptsRange (path content : Bytes) (m : PersistenceMutation) : Prop :=
  applyMutation path (some content) m =
      ({}, some (xorRange content m.offset.toNat (max m.length.toNat 1))) ∧
    applyMutation path (some (xorRange content m.offset.toNat (max m.length.toNat 1))) m =
      ({}, some content)

/-- A range is hit exactly when its part of the file fits into the buffer, and fills
it unless the range is shorter. -/
theorem corruptBytes_exact_iff (path : Bytes) (file : DiskFile) (kind : m.kind = .corruptBytes)
    (below : m.offset.toNat < file.bytes.length) :
    CorruptsRange path file.bytes m ↔
      min (max m.length.toNat 1) 64 =
        min (max m.length.toNat 1) (file.bytes.length - m.offset.toNat) := by
  unfold CorruptsRange
  have result := applyMutation_below path kind file below
  generalize count : max m.length.toNat 1 = length at result ⊢
  constructor
  · rintro ⟨once, _⟩
    rw [result] at once
    split_ifs at once with enough
    · have same := Option.some.inj (Prod.mk.inj once).2
      have shorter := count_le_of_xorRange_eq below same.symm
      omega
    · have failed := congrArg Status.code (Prod.mk.inj once).1
      cases failed
  · intro same
    have hit : xorRange file.bytes m.offset.toNat (min length 64) =
        xorRange file.bytes m.offset.toNat length := by
      rw [same, xorRange_min (Nat.le_of_lt below)]
    have size : (xorRange file.bytes m.offset.toNat length).length = file.bytes.length :=
      length_xorRange
    have again := applyMutation_below path kind
      ⟨xorRange file.bytes m.offset.toNat length, size ▸ file.sized⟩ (by rw [size]; exact below)
    have back : xorRange (xorRange file.bytes m.offset.toNat length) m.offset.toNat
        (min length 64) = file.bytes := by
      rw [same, ← size, xorRange_min (size ▸ Nat.le_of_lt below), xorRange_xorRange]
    rw [count] at again
    simp only [size, back] at again
    rw [result, again, if_pos (by omega), if_pos (by omega), hit]
    exact ⟨rfl, rfl⟩

theorem corruptBytes_exact_iff_two_bytes :
    CorruptsRange [] [1, 2] { kind := .corruptBytes, offset := 0, length := 2 } :=
  (corruptBytes_exact_iff [] ⟨[1, 2], by decide⟩ rfl (by decide)).mpr (by decide)

/-- The range goes past the end, so nothing is written at all. -/
theorem corruptBytes_short_read :
    ¬ CorruptsRange [] [1, 2] { kind := .corruptBytes, offset := 1, length := 2 } := by
  unfold CorruptsRange
  decide

end Corruption

section InPlace

/-- Where the range that a mutation declares begins and ends. -/
def declaredRange (m : PersistenceMutation) : Nat × Nat :=
  match m.kind with
  | .corruptBytes | .zeroRange => (m.offset.toNat, m.offset.toNat + max m.length.toNat 1)
  | .overwriteMagic => (0, 4)
  | .overwriteVersion => (m.offset.toNat, m.offset.toNat + 4)
  | _ => (0, 0)

/-- What a mutation that stays in place may do. -/
structure InPlace (m : PersistenceMutation) (content : Bytes) (outcome : Status × Option Bytes) :
    Prop where
  length : outcome.2.map List.length = some content.length
  outside : ∀ i, ¬ (m.declaredRange.1 ≤ i ∧ i < m.declaredRange.2) →
    outcome.2.bind (fun after => after[i]?) = content[i]?
  failed : outcome.1.code ≠ .ok → outcome.2 = some content

variable {m : PersistenceMutation} {content : Bytes}

theorem inPlace_unchanged (status : Status) : InPlace m content (status, some content) :=
  ⟨rfl, fun _ _ => rfl, fun _ => rfl⟩

theorem inPlace_overwrite {first : Nat} {bytes : Bytes}
    (within : first + bytes.length ≤ content.length) (low : m.declaredRange.1 ≤ first)
    (high : first + bytes.length ≤ m.declaredRange.2) :
    InPlace m content ({}, some (overwrite 0 content first bytes)) where
  length := by
    rw [Option.map_some, length_overwrite 0 (by omega)]
    congr 1
    omega
  outside := by
    intro i out
    rw [Option.bind_some, getElem?_overwrite 0 (by omega), if_neg (by omega)]
  failed := fun failed => absurd rfl failed

theorem inPlace_write {f : FileStream UInt8} (sound : f.good = true) (same : f.content = content)
    {bytes : Bytes} (within : f.position + bytes.length ≤ content.length)
    (low : m.declaredRange.1 ≤ f.position)
    (high : f.position + bytes.length ≤ m.declaredRange.2) (message : Bytes) :
    InPlace m content (left (written (f.write 0 bytes) message, f.write 0 bytes)) := by
  rw [FileStream.write_of_good sound, left, written, if_pos sound, same]
  exact inPlace_overwrite within low high

variable (path : Bytes) (file : DiskFile)

theorem inPlace_corruptBytes (kind : m.kind = .corruptBytes) :
    InPlace m file.bytes (applyMutation path (some file.bytes) m) := by
  by_cases below : m.offset.toNat < file.bytes.length
  · rw [applyMutation_below path kind file below]
    split_ifs with enough
    · have bound := Nat.min_le_left (max m.length.toNat 1) 64
      generalize min (max m.length.toNat 1) 64 = count at enough bound ⊢
      have full : (((file.bytes.drop m.offset.toNat).take count).map
          fun byte => byte ^^^ 0xa5).length = count := by
        rw [List.length_map, List.length_take, List.length_drop]
        omega
      rw [← overwrite_xor (by omega)]
      apply inPlace_overwrite
      · omega
      · simp [declaredRange, kind]
      · simp only [declaredRange, kind]
        omega
    · exact inPlace_unchanged _
  · have beyond := (size_le_offset_iff (m := m)).mpr (Nat.le_of_not_lt below)
    rw [applyMutation_corruptBytes path _ kind, applyCorruptBytes, if_pos beyond]
    exact inPlace_unchanged _

theorem inPlace_overwriteMagic (kind : m.kind = .overwriteMagic) :
    InPlace m file.bytes (applyMutation path (some file.bytes) m) := by
  rw [applyMutation_overwriteMagic path _ kind, applyOverwriteMagic]
  split_ifs with small
  · exact inPlace_unchanged _
  · rw [UInt64.lt_iff_toNat_lt, toNat_size, Nat.not_lt] at small
    apply inPlace_write
    · rfl
    · rfl
    · exact small
    · simp [declaredRange, kind]
    · simp only [declaredRange, kind]
      exact le_rfl

theorem inPlace_overwriteVersion (kind : m.kind = .overwriteVersion) :
    InPlace m file.bytes (applyMutation path (some file.bytes) m) := by
  have sized := file.sized
  rw [applyMutation_overwriteVersion path _ kind, applyOverwriteVersion]
  split_ifs with beyond
  · exact inPlace_unchanged _
  · by_cases low : m.offset.toNat < 2 ^ 63
    · rw [streamoff_of_lt low, FileStream.seek_of_nonneg rfl]
      have four : (4 : UInt64).toNat = 4 := rfl
      rw [gt_iff_lt, UInt64.lt_iff_toNat_lt, toNat_size, UInt64.toNat_add, four,
        Nat.mod_eq_of_lt (by omega), Nat.not_lt] at beyond
      apply inPlace_write
      · rfl
      · rfl
      · exact beyond
      · simp [declaredRange, kind]
      · simp [declaredRange, kind]
    -- The addition may have wrapped, but such an offset is negative to the stream.
    · rw [FileStream.seek_of_neg rfl (streamoff_neg (Nat.le_of_not_lt low)),
        FileStream.write_of_failed _ rfl]
      exact inPlace_unchanged _

/-- How many bytes `ZERO_RANGE` writes. The sum that is compared with the size wraps. -/
def zeroCount (m : PersistenceMutation) (size : Nat) : Nat :=
  if 2 ^ 64 ≤ m.offset.toNat + max m.length.toNat 1 then max m.length.toNat 1
  else min (max m.length.toNat 1) (size - m.offset.toNat)

theorem toNat_zeroCount (below : m.offset.toNat < file.bytes.length) :
    (if m.offset + (if m.length = 0 then 1 else m.length) > UInt64.ofNat file.bytes.length
      then UInt64.ofNat file.bytes.length - m.offset
      else if m.length = 0 then 1 else m.length).toNat = zeroCount m file.bytes.length := by
  have sized := file.sized
  have length := toNat_length m
  have size := toNat_size file
  rw [ite_not] at length
  unfold zeroCount
  rw [← length]
  generalize (if m.length = 0 then 1 else m.length) = len
  generalize UInt64.ofNat file.bytes.length = total at size ⊢
  have fits := len.toNat_lt
  have sum : (m.offset + len).toNat = (m.offset.toNat + len.toNat) % 2 ^ 64 := UInt64.toNat_add ..
  rw [← size] at below sized ⊢
  have rest : (total - m.offset).toNat = total.toNat - m.offset.toNat :=
    UInt64.toNat_sub_of_le _ _ (UInt64.le_iff_toNat_le.mpr (Nat.le_of_lt below))
  by_cases beyond : m.offset + len > total
  · rw [if_pos beyond, rest]
    rw [gt_iff_lt, UInt64.lt_iff_toNat_lt, sum] at beyond
    by_cases wraps : 2 ^ 64 ≤ m.offset.toNat + len.toNat
    · omega
    · rw [if_neg wraps]
      omega
  · rw [if_neg beyond]
    rw [gt_iff_lt, UInt64.lt_iff_toNat_lt, sum] at beyond
    by_cases wraps : 2 ^ 64 ≤ m.offset.toNat + len.toNat
    · rw [if_pos wraps]
    · rw [if_neg wraps]
      omega

theorem applyMutation_zeroRange_below (kind : m.kind = .zeroRange)
    (below : m.offset.toNat < file.bytes.length) :
    applyMutation path (some file.bytes) m =
      ({}, some (overwrite 0 file.bytes m.offset.toNat
        (List.replicate (zeroCount m file.bytes.length) 0))) := by
  obtain ⟨inside, place⟩ := place_of_below below
  rw [applyMutation_zeroRange path _ kind]
  simp only [applyZeroRange, if_neg inside]
  rw [toNat_zeroCount file below, place, FileStream.seek_of_nonneg rfl,
    FileStream.foldl_write rfl _ (Nat.le_of_lt below), FileStream.write_of_good rfl]
  rfl

theorem inPlace_zeroRange_iff (kind : m.kind = .zeroRange) :
    InPlace m file.bytes (applyMutation path (some file.bytes) m) ↔
      ¬ (m.offset.toNat < file.bytes.length ∧ 2 ^ 64 ≤ m.offset.toNat + max m.length.toNat 1) := by
  have sized := file.sized
  by_cases below : m.offset.toNat < file.bytes.length
  · rw [applyMutation_zeroRange_below path file kind below, zeroCount]
    split_ifs with wraps
    · refine iff_of_false (fun inPlace => ?_) (not_not.mpr ⟨below, wraps⟩)
      have length := Option.some.inj inPlace.length
      rw [length_overwrite 0 (Nat.le_of_lt below), List.length_replicate] at length
      omega
    · refine iff_of_true ?_ fun wrapped => wraps wrapped.2
      apply inPlace_overwrite
      · rw [List.length_replicate]
        omega
      · simp [declaredRange, kind]
      · rw [List.length_replicate]
        simp only [declaredRange, kind]
        omega
  · have beyond := (size_le_offset_iff (m := m)).mpr (Nat.le_of_not_lt below)
    refine iff_of_true ?_ fun wrapped => below wrapped.1
    rw [applyMutation_zeroRange path _ kind, applyZeroRange, if_pos beyond]
    exact inPlace_unchanged _

/-- The mutations that change bytes where they are. -/
def inPlaceKinds : List MutationKind :=
  [.corruptBytes, .overwriteMagic, .overwriteVersion, .zeroRange]

/-- A mutation stays in place unless it zeroes a range that begins in the file and
ends past the last 64-bit number. -/
theorem applyMutation_inPlace_iff (listed : m.kind ∈ inPlaceKinds) :
    InPlace m file.bytes (applyMutation path (some file.bytes) m) ↔
      ¬ (m.kind = .zeroRange ∧ m.offset.toNat < file.bytes.length ∧
        2 ^ 64 ≤ m.offset.toNat + max m.length.toNat 1) := by
  cases kind : m.kind with
  | zeroRange => rw [inPlace_zeroRange_iff path file kind, eq_self, true_and]
  | corruptBytes => exact iff_of_true (inPlace_corruptBytes path file kind) (by simp)
  | overwriteMagic => exact iff_of_true (inPlace_overwriteMagic path file kind) (by simp)
  | overwriteVersion => exact iff_of_true (inPlace_overwriteVersion path file kind) (by simp)
  | truncate | appendGarbage | writePartialTemp | last => simp [inPlaceKinds, kind] at listed

def twoBytes : DiskFile := ⟨[1, 2], by decide⟩

theorem applyMutation_inPlace_iff_two_bytes :
    InPlace { kind := .zeroRange, offset := 1, length := 5 } [1, 2]
      (applyMutation [] (some [1, 2]) { kind := .zeroRange, offset := 1, length := 5 }) :=
  (applyMutation_inPlace_iff [] twoBytes (by decide)).mpr (by decide)

/-- The sum of offset and length is zero, so the range is not cut. -/
theorem zeroRange_extends_file :
    ¬ ∀ (path : Bytes) (file : DiskFile) (m : PersistenceMutation), m.kind ∈ inPlaceKinds →
      InPlace m file.bytes (applyMutation path (some file.bytes) m) := by
  intro inPlace
  have wrapped := inPlace [] twoBytes { kind := .zeroRange, offset := 1, length := -1 } (by decide)
  rw [inPlace_zeroRange_iff _ _ rfl] at wrapped
  exact wrapped (by decide)

end InPlace

end PersistenceMutation

end ChaosLab

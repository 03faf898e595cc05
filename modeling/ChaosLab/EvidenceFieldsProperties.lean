import ChaosLab.EscapeProperties
import ChaosLab.Foundation.OrderedMap

/-! Round trip of the field column. Items are cut at commas and equality signs
before they are unescaped, so only some maps come back. -/

set_option autoImplicit false

namespace ChaosLab

open Foundation EvidenceRecorder

def fieldItem (entry : Bytes × Bytes) : Bytes := esc entry.1 ++ Byte.equals :: esc entry.2

theorem fieldsText_eq_intercalate (entries : List (Bytes × Bytes)) :
    fieldsText true entries = [Byte.comma].intercalate (entries.map fieldItem) := by
  symm
  apply intercalate_map_eq_loop
  · intro first
    rfl
  · intro first entry entries
    obtain ⟨key, value⟩ := entry
    cases first <;> simp [fieldsText, fieldItem]

/-- The entry that an item of the field column is read as. -/
def itemEntry (item : Bytes) : Bytes × Bytes :=
  match cutAt Byte.equals item with
  | none => ([], [])
  | some (key, value) => (unesc key, unesc value)

theorem parseFields_eq_some_iff {items : List Bytes} {fields parsed : Fields} :
    parseFields fields items = some parsed ↔
      (∀ item ∈ items, Byte.equals ∈ item) ∧ insertAll fields (items.map itemEntry) = parsed := by
  induction items generalizing fields with
  | nil => simp [parseFields, insertAll]
  | cons item items ih =>
      rw [parseFields, List.forall_mem_cons, List.map_cons, insertAll_cons, itemEntry]
      by_cases equals : Byte.equals ∈ item
      · simp only [cutAt, equals, ↓reduceIte, true_and]
        exact ih
      · simp [cutAt, equals]

theorem itemEntry_fieldItem {entry : Bytes × Bytes} (keyed : Byte.equals ∉ entry.1) :
    itemEntry (fieldItem entry) = (unesc (esc entry.1), unesc (esc entry.2)) := by
  have absent : Byte.equals ∉ esc entry.1 := mt equals_mem_esc_iff.mp keyed
  rw [itemEntry, fieldItem, cutAt_append absent]

theorem parseFields_fieldItem {entries : List (Bytes × Bytes)} (fields : Fields)
    (keyed : ∀ entry ∈ entries, Byte.equals ∉ entry.1) :
    parseFields fields (entries.map fieldItem) = some (insertAll fields
      (entries.map fun entry => (unesc (esc entry.1), unesc (esc entry.2)))) := by
  rw [parseFields_eq_some_iff, List.forall_mem_map, List.map_map]
  constructor
  · intro entry _
    simp [fieldItem]
  · apply congrArg
    apply List.map_congr_left
    intro entry member
    exact itemEntry_fieldItem (keyed entry member)

theorem items_of_parseFieldsColumn {column : Bytes} {parsed : Fields} (nonempty : column ≠ [])
    (accepted : parseFieldsColumn column = some parsed) :
    (∀ item ∈ split column Byte.comma, Byte.equals ∈ item) ∧
      insertAll ∅ ((split column Byte.comma).map itemEntry) = parsed := by
  rw [parseFieldsColumn, if_neg nonempty] at accepted
  exact parseFields_eq_some_iff.mp accepted

theorem comma_notMem_fieldItem {entry : Bytes × Bytes} (key : Byte.comma ∉ entry.1)
    (value : Byte.comma ∉ entry.2) : Byte.comma ∉ fieldItem entry := by
  simp only [fieldItem, List.mem_append, List.mem_cons, comma_mem_esc_iff, not_or]
  exact ⟨key, by decide, value⟩

/-- A field that the column can carry: it is cut off whole and unescaped to
itself. -/
structure FieldRepresentable (key value : Bytes) : Prop where
  keyComma : Byte.comma ∉ key
  keyEquals : Byte.equals ∉ key
  keyEscape : EscapeFree key
  valueComma : Byte.comma ∉ value
  valueEscape : EscapeFree value

instance (key value : Bytes) : Decidable (FieldRepresentable key value) :=
  decidable_of_iff (Byte.comma ∉ key ∧ Byte.equals ∉ key ∧ EscapeFree key ∧
    Byte.comma ∉ value ∧ EscapeFree value)
    ⟨fun ⟨h1, h2, h3, h4, h5⟩ => ⟨h1, h2, h3, h4, h5⟩,
      fun ⟨h1, h2, h3, h4, h5⟩ => ⟨h1, h2, h3, h4, h5⟩⟩

theorem FieldRepresentable.unesc_esc {entry : Bytes × Bytes}
    (representable : FieldRepresentable entry.1 entry.2) :
    (unesc (esc entry.1), unesc (esc entry.2)) = entry := by
  rw [unesc_esc_eq_self_iff.mpr representable.keyEscape,
    unesc_esc_eq_self_iff.mpr representable.valueEscape]

theorem split_fieldsText {fields : Fields} (nonempty : fields.toList ≠ [])
    (uncut : ∀ entry ∈ fields.toList, Byte.comma ∉ entry.1 ∧ Byte.comma ∉ entry.2) :
    fieldsText true fields.toList ≠ [] ∧
      split (fieldsText true fields.toList) Byte.comma = fields.toList.map fieldItem := by
  have pieces : split (fieldsText true fields.toList) Byte.comma =
      fields.toList.map fieldItem := by
    refine split_eq_iff.mpr ⟨by simpa using nonempty, ?_, (fieldsText_eq_intercalate _).symm⟩
    intro item member
    obtain ⟨entry, inside, rfl⟩ := List.mem_map.mp member
    exact comma_notMem_fieldItem (uncut entry inside).1 (uncut entry inside).2
  refine ⟨?_, pieces⟩
  intro empty
  rw [empty] at pieces
  cases entries : fields.toList with
  | nil => exact nonempty entries
  | cons entry others =>
      rw [entries, List.map_cons] at pieces
      have blank : fieldItem entry = [] := (List.cons.inj pieces).1.symm
      simp [fieldItem] at blank

theorem parseFieldsColumn_of_representable {fields : Fields}
    (representable : ∀ entry ∈ fields.toList, FieldRepresentable entry.1 entry.2) :
    parseFieldsColumn (fieldsText true fields.toList) = some fields := by
  by_cases nonempty : fields.toList = []
  · rw [nonempty]
    exact congrArg some (Std.ExtTreeMap.toList_eq_nil_iff.mp nonempty).symm
  · obtain ⟨written, pieces⟩ := split_fieldsText nonempty fun entry member =>
      ⟨(representable entry member).keyComma, (representable entry member).valueComma⟩
    rw [parseFieldsColumn, if_neg written, pieces,
      parseFields_fieldItem ∅ fun entry member => (representable entry member).keyEquals]
    have unchanged : (fields.toList.map fun entry =>
        (unesc (esc entry.1), unesc (esc entry.2))) = fields.toList := by
      refine (List.map_congr_left fun entry member => ?_).trans (List.map_id _)
      exact (representable entry member).unesc_esc
    rw [unchanged, insertAll_toList]

theorem notMem_unesc {text : Bytes} {byte : UInt8} (absent : byte ∉ text)
    (unwritten : byte ≠ Byte.newline ∧ byte ≠ Byte.carriageReturn ∧ byte ≠ Byte.pipe) :
    byte ∉ unesc text := by
  intro inside
  rcases mem_of_mem_unesc inside with inside | other
  · exact absent inside
  · revert other
    simp [unwritten]

theorem delimiters_notMem_of_parseFieldsColumn {column : Bytes} {parsed : Fields}
    (accepted : parseFieldsColumn column = some parsed) {key value : Bytes}
    (found : parsed[key]? = some value) :
    Byte.comma ∉ key ∧ Byte.equals ∉ key ∧ Byte.comma ∉ value := by
  by_cases empty : column = []
  · rw [parseFieldsColumn, if_pos empty] at accepted
    cases accepted
    simp at found
  · obtain ⟨keyed, built⟩ := items_of_parseFieldsColumn empty accepted
    rw [← built] at found
    rcases mem_of_getElem?_insertAll found with listed | inEmpty
    · obtain ⟨item, member, same⟩ := List.mem_map.mp listed
      obtain ⟨before, after, rfl, noEquals⟩ := List.eq_append_cons_of_mem (keyed item member)
      have noComma := notMem_of_mem_split member
      rw [List.mem_append, List.mem_cons, not_or, not_or] at noComma
      rw [itemEntry, cutAt_append noEquals] at same
      cases same
      exact ⟨notMem_unesc noComma.1 (by decide), notMem_unesc noEquals (by decide),
        notMem_unesc noComma.2.2 (by decide)⟩
    · simp at inEmpty

/-- What is read back of the writer's own column is every entry, escaped and unescaped. -/
theorem insertAll_of_parseFieldsColumn {fields : Fields}
    (plain : ∀ entry ∈ fields.toList,
      Byte.comma ∉ entry.1 ∧ Byte.equals ∉ entry.1 ∧ Byte.comma ∉ entry.2)
    (accepted : parseFieldsColumn (fieldsText true fields.toList) = some fields) :
    insertAll ∅ (fields.toList.map fun entry =>
      (unesc (esc entry.1), unesc (esc entry.2))) = fields := by
  by_cases nonempty : fields.toList = []
  · rw [nonempty, List.map_nil]
    exact (Std.ExtTreeMap.toList_eq_nil_iff.mp nonempty).symm
  obtain ⟨written, pieces⟩ := split_fieldsText nonempty fun entry member =>
    ⟨(plain entry member).1, (plain entry member).2.2⟩
  rw [parseFieldsColumn, if_neg written, pieces,
    parseFields_fieldItem ∅ fun entry member => (plain entry member).2.1] at accepted
  exact Option.some.inj accepted

/-- Unescaping covers the key set from within and only ever shortens, so it fixes every key. -/
theorem unesc_esc_key_of_insertAll {fields : Fields}
    (rebuilt : insertAll ∅ (fields.toList.map fun entry =>
      (unesc (esc entry.1), unesc (esc entry.2))) = fields) :
    ∀ key ∈ fields.toList.map Prod.fst, unesc (esc key) = key := by
  apply fixed_of_covering_of_shrinking fun key => length_unesc_esc_lt
  intro key member
  obtain ⟨entry, inside, rfl⟩ := List.mem_map.mp member
  have present : fields[entry.1]? = some entry.2 :=
    Std.ExtTreeMap.mem_toList_iff_getElem?_eq_some.mp inside
  nth_rewrite 1 [← rebuilt] at present
  rcases mem_of_getElem?_insertAll present with moved | inEmpty
  · obtain ⟨source, sourceMember, same⟩ := List.mem_map.mp moved
    exact ⟨source.1, List.mem_map.mpr ⟨source, sourceMember, rfl⟩, congrArg Prod.fst same⟩
  · simp at inEmpty

theorem unesc_esc_value_of_insertAll {fields : Fields}
    (rebuilt : insertAll ∅ (fields.toList.map fun entry =>
      (unesc (esc entry.1), unesc (esc entry.2))) = fields)
    {entry : Bytes × Bytes} (member : entry ∈ fields.toList) :
    unesc (esc entry.2) = entry.2 := by
  have keysFixed := unesc_esc_key_of_insertAll rebuilt
  have sameKeys : (fields.toList.map fun entry =>
      (unesc (esc entry.1), unesc (esc entry.2))).map Prod.fst = fields.toList.map Prod.fst := by
    rw [List.map_map]
    exact List.map_congr_left fun other inside =>
      keysFixed other.1 (List.mem_map.mpr ⟨other, inside, rfl⟩)
  have distinct := nodup_keys_toList fields
  rw [← sameKeys] at distinct
  have looked : (insertAll ∅ (fields.toList.map fun entry =>
      (unesc (esc entry.1), unesc (esc entry.2))))[entry.1]? = some (unesc (esc entry.2)) := by
    refine getElem?_insertAll_of_mem distinct (List.mem_map.mpr ⟨entry, member, ?_⟩)
    rw [keysFixed entry.1 (List.mem_map.mpr ⟨entry, member, rfl⟩)]
  rw [rebuilt, Std.ExtTreeMap.mem_toList_iff_getElem?_eq_some.mp member] at looked
  exact (Option.some.inj looked).symm

theorem representable_of_parseFieldsColumn {fields : Fields}
    (accepted : parseFieldsColumn (fieldsText true fields.toList) = some fields) :
    ∀ entry ∈ fields.toList, FieldRepresentable entry.1 entry.2 := by
  have plain : ∀ entry ∈ fields.toList,
      Byte.comma ∉ entry.1 ∧ Byte.equals ∉ entry.1 ∧ Byte.comma ∉ entry.2 :=
    fun entry member => delimiters_notMem_of_parseFieldsColumn accepted
      (Std.ExtTreeMap.mem_toList_iff_getElem?_eq_some.mp member)
  have rebuilt := insertAll_of_parseFieldsColumn plain accepted
  intro entry member
  have keyFixed := unesc_esc_key_of_insertAll rebuilt entry.1
    (List.mem_map.mpr ⟨entry, member, rfl⟩)
  exact {
    keyComma := (plain entry member).1
    keyEquals := (plain entry member).2.1
    keyEscape := unesc_esc_eq_self_iff.mp keyFixed
    valueComma := (plain entry member).2.2
    valueEscape := unesc_esc_eq_self_iff.mp (unesc_esc_value_of_insertAll rebuilt member) }

theorem parseFieldsColumn_eq_some_iff {fields : Fields} :
    parseFieldsColumn (fieldsText true fields.toList) = some fields ↔
      ∀ entry ∈ fields.toList, FieldRepresentable entry.1 entry.2 :=
  ⟨representable_of_parseFieldsColumn, parseFieldsColumn_of_representable⟩

end ChaosLab

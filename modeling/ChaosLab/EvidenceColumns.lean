import ChaosLab.EvidenceFieldsProperties

/-! The last two columns of a record, its fields and its payload. Two records may write them
alike; here is when one of them has no such double. -/

set_option autoImplicit false

namespace ChaosLab

open Foundation

def columnsText (fields : Fields) (payload : Bytes) : Bytes :=
  fieldsText true fields.toList ++ Byte.pipe :: esc payload

section Order

/-- The entries stand in the order of their keys. -/
def InKeyOrder (entries : List (Bytes × Bytes)) : Prop :=
  entries.Pairwise fun first second => compare first.1 second.1 = .lt

theorem inKeyOrder_toList (fields : Fields) : InKeyOrder fields.toList :=
  Std.ExtTreeMap.ordered_keys_toList

theorem inKeyOrder_singleton (entry : Bytes × Bytes) : InKeyOrder [entry] :=
  List.pairwise_singleton _ entry

theorem inKeyOrder_cons {entry : Bytes × Bytes} {entries : List (Bytes × Bytes)} :
    InKeyOrder (entry :: entries) ↔
      (∀ other ∈ entries, compare entry.1 other.1 = .lt) ∧ InKeyOrder entries :=
  List.pairwise_cons

/-- The order around one of the entries. -/
theorem inKeyOrder_around {entry : Bytes × Bytes} {before behind : List (Bytes × Bytes)} :
    InKeyOrder (before ++ entry :: behind) ↔ InKeyOrder before ∧ InKeyOrder behind ∧
      (∀ other ∈ before, compare other.1 entry.1 = .lt) ∧
      ∀ other ∈ behind, compare entry.1 other.1 = .lt := by
  unfold InKeyOrder
  rw [List.pairwise_append, List.pairwise_cons]
  constructor
  · intro ordered
    obtain ⟨left, ⟨later, right⟩, across⟩ := ordered
    exact ⟨left, right, fun other member => across other member entry List.mem_cons_self, later⟩
  · intro ordered
    obtain ⟨left, right, earlier, later⟩ := ordered
    refine ⟨left, ⟨later, right⟩, ?_⟩
    intro first inside second member
    obtain rfl | member := List.mem_cons.mp member
    · exact earlier first inside
    · exact Std.TransCmp.lt_trans (earlier first inside) (later second member)

end Order

section Separators

/-- Every pipe stands behind a backslash. -/
def Guarded (text : Bytes) : Prop :=
  ∀ before after, text = before ++ Byte.pipe :: after → before.getLast? = some Byte.backslash

theorem guarded_of_notMem {text : Bytes} (absent : Byte.pipe ∉ text) : Guarded text := by
  intro before after cut
  rw [cut] at absent
  exact absurd (by simp) absent

theorem Guarded.append {left right : Bytes} (first : Guarded left) (second : Guarded right) :
    Guarded (left ++ right) := by
  intro before after cut
  obtain ⟨middle, rfl, rest⟩ | ⟨middle, early, late⟩ := List.append_eq_append_iff.mp cut
  · rw [List.getLast?_append, second middle after rest]
    rfl
  · cases middle with
    | nil =>
        rw [List.nil_append] at late
        cases second [] after late.symm
    | cons byte middle =>
        rw [List.cons_append, List.cons.injEq] at late
        rw [← late.1] at early
        exact first before middle early

theorem guarded_escByte (byte : UInt8) : Guarded (escByte byte) := by
  obtain ⟨plain, -, -, notPipe⟩ | ⟨letter, escaped, -, -⟩ := escByte_cases byte
  · apply guarded_of_notMem
    rw [plain, List.mem_singleton]
    exact Ne.symm notPipe
  · intro before after cut
    rw [escaped] at cut
    cases before with
    | nil => cases cut
    | cons first before =>
        rw [List.cons_append, List.cons.injEq] at cut
        rw [← cut.1]
        cases before with
        | nil => rfl
        | cons second before =>
            have lengths := congrArg List.length cut.2
            simp at lengths

theorem guarded_esc (text : Bytes) : Guarded (esc text) := by
  induction text with
  | nil => exact guarded_of_notMem (List.not_mem_nil)
  | cons byte text ih => exact (guarded_escByte byte).append ih

theorem guarded_fieldsText (first : Bool) (entries : List (Bytes × Bytes)) :
    Guarded (fieldsText first entries) := by
  induction entries generalizing first with
  | nil => exact guarded_of_notMem (List.not_mem_nil)
  | cons entry entries ih =>
      have comma : Guarded (if first then [] else [Byte.comma]) := by
        apply guarded_of_notMem
        cases first <;> decide
      have equals : Guarded [Byte.equals] := guarded_of_notMem (by decide)
      exact (((comma.append (guarded_esc entry.1)).append equals).append
        (guarded_esc entry.2)).append (ih false)

/-- What comes after a byte that is no backslash. -/
theorem Guarded.of_append_cons {before after : Bytes} {byte : UInt8}
    (guarded : Guarded (before ++ byte :: after)) (plain : byte ≠ Byte.backslash) :
    Guarded after := by
  intro left right cut
  have last := guarded (before ++ byte :: left) right (by rw [cut]; simp)
  rw [List.getLast?_append, List.getLast?_cons] at last
  cases left.eq_nil_or_concat with
  | inl empty =>
      rw [empty] at last
      exact absurd (Option.some.inj last) plain
  | inr longer =>
      obtain ⟨start, final, rfl⟩ := longer
      simpa using last

/-- A separating pipe is found again when it stands behind no backslash, or when it is the only
pipe there is. -/
theorem separator_unique {left right tail rest : Bytes} (guardedLeft : Guarded left)
    (guardedTail : Guarded tail)
    (clear : right.getLast? ≠ some Byte.backslash ∨ Byte.pipe ∉ right ∧ Byte.pipe ∉ rest)
    (same : left ++ Byte.pipe :: tail = right ++ Byte.pipe :: rest) :
    left = right ∧ tail = rest := by
  obtain ⟨middle, longer, tails⟩ | ⟨middle, longer, tails⟩ := List.append_eq_append_iff.mp same
  · cases middle with
    | nil =>
        rw [List.nil_append, List.cons.injEq] at tails
        exact ⟨by rw [longer, List.append_nil], tails.2⟩
    | cons byte middle =>
        rw [List.cons_append, List.cons.injEq] at tails
        obtain ⟨rfl, tails⟩ := tails
        have last : right.getLast? = some Byte.backslash := by
          rw [longer, List.getLast?_append, List.getLast?_cons, guardedTail middle rest tails]
          rfl
        cases clear with
        | inl free => exact absurd last free
        | inr alone => exact absurd (by rw [longer]; simp) alone.1
  · cases middle with
    | nil =>
        rw [List.nil_append, List.cons.injEq] at tails
        exact ⟨by rw [longer, List.append_nil], tails.2.symm⟩
    | cons byte middle =>
        rw [List.cons_append, List.cons.injEq] at tails
        obtain ⟨rfl, tails⟩ := tails
        cases clear with
        | inl free => exact absurd (guardedLeft right middle longer) free
        | inr alone => exact absurd (by rw [tails]; simp) alone.2

end Separators

@[simp] theorem escByte_backslash : escByte Byte.backslash = [Byte.backslash] := rfl

@[simp] theorem escByte_comma : escByte Byte.comma = [Byte.comma] := rfl

@[simp] theorem escByte_equals : escByte Byte.equals = [Byte.equals] := rfl

theorem getLast?_esc {text : Bytes} (last : (esc text).getLast? = some Byte.backslash) :
    text.getLast? = some Byte.backslash := by
  induction text using List.reverseRecOn with
  | nil => cases last
  | append_singleton start final _ =>
      have single : esc [final] = escByte final := by simp
      rw [esc_append, single, List.getLast?_append] at last
      rw [List.getLast?_concat]
      obtain ⟨plain, -⟩ | ⟨letter, escaped, decoded, -⟩ := escByte_cases final
      · rw [plain] at last
        exact last
      · rw [escaped] at last
        have letters : letter = Byte.backslash := Option.some.inj last
        rw [letters] at decoded
        cases decoded

/-- The end of the last value is found again unless a pipe behind a backslash could be meant. -/
theorem ending_unique {value payload left rest : Bytes} (unbroken : Unbroken payload)
    (ending : value.getLast? = some Byte.backslash → Byte.pipe ∉ value ∧ Byte.pipe ∉ payload)
    (guarded : Guarded left)
    (same : left ++ Byte.pipe :: esc rest = esc value ++ Byte.pipe :: esc payload) :
    left = esc value ∧ rest = payload := by
  have clear : (esc value).getLast? ≠ some Byte.backslash ∨
      Byte.pipe ∉ esc value ∧ Byte.pipe ∉ esc payload := by
    by_cases last : (esc value).getLast? = some Byte.backslash
    · have alone := ending (getLast?_esc last)
      exact .inr ⟨mt pipe_mem_esc_iff.mp alone.1, mt pipe_mem_esc_iff.mp alone.2⟩
    · exact .inl last
  obtain ⟨values, payloads⟩ := separator_unique guarded (guarded_esc rest) clear same
  exact ⟨values, esc_unique_iff.mpr unbroken rest payloads⟩

/-- What keeps the last two columns of a record apart from those of every other: at most one
field, no equality sign in it, no line break and no escape of one, and no backslash at the end
of its value when there is a pipe that could be taken for the separator. -/
structure Distinctive (fields : Fields) (payload : Bytes) : Prop where
  single : fields.toList.length ≤ 1
  key : ∀ entry ∈ fields.toList, Byte.equals ∉ entry.1 ∧ Unbroken entry.1
  value : ∀ entry ∈ fields.toList, Byte.equals ∉ entry.2 ∧ Unbroken entry.2
  ending : ∀ entry ∈ fields.toList, entry.2.getLast? = some Byte.backslash →
    Byte.pipe ∉ entry.2 ∧ Byte.pipe ∉ payload
  payload : Unbroken payload

theorem fieldsText_cons (entry : Bytes × Bytes) (entries : List (Bytes × Bytes)) :
    fieldsText true (entry :: entries) =
      esc entry.1 ++ Byte.equals :: (esc entry.2 ++ fieldsText false entries) := by
  simp [fieldsText]

theorem equals_mem_fieldsText {entries : List (Bytes × Bytes)} (nonempty : entries ≠ [])
    (first : Bool) : Byte.equals ∈ fieldsText first entries := by
  cases entries with
  | nil => contradiction
  | cons entry entries => simp [fieldsText]

/-- A text with one equality sign has one way to be read as fields. -/
theorem entries_eq_of_fieldsText {entries : List (Bytes × Bytes)} {key value : Bytes}
    (keyPlain : Byte.equals ∉ key ∧ Unbroken key)
    (valuePlain : Byte.equals ∉ value ∧ Unbroken value)
    (same : fieldsText true entries = esc key ++ Byte.equals :: esc value) :
    entries = [(key, value)] := by
  have keyClear : Byte.equals ∉ esc key := mt equals_mem_esc_iff.mp keyPlain.1
  have valueClear : Byte.equals ∉ esc value := mt equals_mem_esc_iff.mp valuePlain.1
  cases entries with
  | nil =>
      have lengths := congrArg List.length same
      simp [fieldsText] at lengths
  | cons entry entries =>
      rw [fieldsText_cons] at same
      have counts := congrArg (List.count Byte.equals) same
      simp only [List.count_append, List.count_cons_self,
        List.count_eq_zero_of_not_mem keyClear, List.count_eq_zero_of_not_mem valueClear] at counts
      have noKey : Byte.equals ∉ esc entry.1 := List.count_eq_zero.mp (by omega)
      have noRest : Byte.equals ∉ fieldsText false entries := List.count_eq_zero.mp (by omega)
      have empty : entries = [] := by
        by_contra nonempty
        exact noRest (equals_mem_fieldsText nonempty false)
      have cuts := congrArg (cutAt Byte.equals) same
      rw [cutAt_append noKey, cutAt_append keyClear, empty] at cuts
      obtain ⟨keys, values⟩ := Prod.mk.inj (Option.some.inj cuts)
      rw [fieldsText, List.append_nil] at values
      rw [empty, ← esc_unique_iff.mpr keyPlain.2 _ keys, ← esc_unique_iff.mpr valuePlain.2 _ values]

theorem eq_of_toList_eq {fields others : Fields} (same : others.toList = fields.toList) :
    others = fields := by
  rw [← insertAll_toList others, same, insertAll_toList]

theorem eq_of_columnsText_nil {fields others : Fields} {payload rest : Bytes}
    (empty : fields.toList = []) (plain : Unbroken payload)
    (same : columnsText others rest = columnsText fields payload) :
    others = fields ∧ rest = payload := by
  rw [columnsText, columnsText, empty] at same
  obtain ⟨texts, payloads⟩ := separator_unique (guarded_fieldsText _ _) (guarded_esc rest)
    (.inl (by simp [fieldsText])) same
  refine ⟨eq_of_toList_eq ?_, esc_unique_iff.mpr plain rest payloads⟩
  rw [empty]
  by_contra nonempty
  have inside := equals_mem_fieldsText nonempty true
  rw [texts] at inside
  cases inside

theorem ne_nil_of_columnsText {fields others : Fields} {payload rest : Bytes}
    (nonempty : fields.toList ≠ [])
    (same : columnsText others rest = columnsText fields payload) : others.toList ≠ [] := by
  intro empty
  have guarded := guarded_fieldsText true fields.toList
  rw [columnsText, columnsText, empty] at same
  cases written : fieldsText true fields.toList with
  | nil =>
      have inside := equals_mem_fieldsText nonempty true
      rw [written] at inside
      cases inside
  | cons byte text =>
      rw [written] at same guarded
      obtain ⟨rfl, -⟩ := List.cons.inj same
      cases guarded [] text rfl

theorem eq_of_columnsText_singleton {fields others : Fields} {payload rest : Bytes}
    (distinctive : Distinctive fields payload) {key value : Bytes}
    (single : fields.toList = [(key, value)])
    (same : columnsText others rest = columnsText fields payload) :
    others = fields ∧ rest = payload := by
  have member : (key, value) ∈ fields.toList := by simp [single]
  have keyPlain := distinctive.key _ member
  have valuePlain := distinctive.value _ member
  have nonempty := ne_nil_of_columnsText (by simp [single]) same
  obtain ⟨before, after, cut, absent⟩ :=
    List.eq_append_cons_of_mem (equals_mem_fieldsText nonempty true)
  have guarded : Guarded after := by
    have written := guarded_fieldsText true others.toList
    rw [cut] at written
    exact written.of_append_cons (by decide)
  have cuts := congrArg (cutAt Byte.equals) same
  rw [columnsText, columnsText, cut, single, fieldsText_cons, List.append_assoc, List.cons_append,
    List.append_assoc, List.cons_append, cutAt_append absent,
    cutAt_append (mt equals_mem_esc_iff.mp keyPlain.1)] at cuts
  obtain ⟨keys, tails⟩ := Prod.mk.inj (Option.some.inj cuts)
  rw [fieldsText, List.append_nil] at tails
  obtain ⟨values, payloads⟩ :=
    ending_unique distinctive.payload (distinctive.ending _ member) guarded tails
  refine ⟨eq_of_toList_eq ?_, payloads⟩
  rw [single]
  apply entries_eq_of_fieldsText keyPlain valuePlain
  rw [cut, keys, values]

theorem Distinctive.unique {fields : Fields} {payload : Bytes}
    (distinctive : Distinctive fields payload) {others : Fields} {rest : Bytes}
    (same : columnsText others rest = columnsText fields payload) :
    others = fields ∧ rest = payload := by
  cases listed : fields.toList with
  | nil => exact eq_of_columnsText_nil listed distinctive.payload same
  | cons entry entries =>
      have single := distinctive.single
      rw [listed, List.length_cons] at single
      have empty : entries = [] := List.length_eq_zero_iff.mp (by omega)
      rw [empty] at listed
      exact eq_of_columnsText_singleton distinctive listed same

section Alone

theorem esc_append_cons {byte : UInt8} (plain : escByte byte = [byte]) (before after : Bytes) :
    esc (before ++ byte :: after) = esc before ++ byte :: esc after := by
  rw [esc_append, esc_cons, plain, List.singleton_append]

theorem esc_append_pipe (before after : Bytes) :
    esc (before ++ Byte.pipe :: after) =
      esc before ++ Byte.backslash :: Byte.pipe :: esc after := by
  rw [esc_append, esc_cons]
  rfl

/-- No other field with a fitting key is written like this one. -/
def Alone (fits : Bytes → Prop) (key value : Bytes) : Prop :=
  ∀ other text, fits other →
    esc other ++ Byte.equals :: esc text = esc key ++ Byte.equals :: esc value →
      other = key ∧ text = value

variable {fits : Bytes → Prop} {key value payload : Bytes}

theorem Alone.key_unbroken (alone : Alone fits key value)
    (alike : ∀ other, esc other = esc key → fits other) : Unbroken key := by
  apply esc_unique_iff.mp
  intro other same
  exact (alone other value (alike other same) (by rw [same])).1

theorem Alone.value_unbroken (alone : Alone fits key value) (own : fits key) :
    Unbroken value := by
  apply esc_unique_iff.mp
  intro other same
  exact (alone key other own (by rw [same])).2

/-- The field could begin its value at an earlier equality sign. -/
theorem Alone.not_fits_before (alone : Alone fits key value) {before after : Bytes}
    (cut : key = before ++ Byte.equals :: after) : ¬ fits before := by
  intro fitting
  have same := (alone before (after ++ Byte.equals :: value) fitting (by
    rw [cut, esc_append_cons rfl, esc_append_cons rfl]
    simp)).1
  have lengths := congrArg List.length (same.trans cut)
  simp at lengths

/-- Or at a later one. -/
theorem Alone.equals_notMem_value (alone : Alone fits key value)
    (longer : ∀ more, fits (key ++ Byte.equals :: more)) : Byte.equals ∉ value := by
  intro member
  obtain ⟨before, after, rfl⟩ := List.append_of_mem member
  have same := (alone (key ++ Byte.equals :: before) after (longer before) (by
    rw [esc_append_cons rfl, esc_append_cons rfl]
    simp)).1
  have lengths := congrArg List.length same
  simp at lengths

/-- With a backslash before the separator, another pipe can take its place. -/
theorem pipe_notMem_of_unique
    (unique : ∀ text rest, esc text ++ Byte.pipe :: esc rest =
      esc value ++ Byte.pipe :: esc payload → text = value ∧ rest = payload)
    (ending : value.getLast? = some Byte.backslash) :
    Byte.pipe ∉ value ∧ Byte.pipe ∉ payload := by
  obtain ⟨start, rfl⟩ := List.getLast?_eq_some_iff.mp ending
  constructor
  · intro member
    rw [List.mem_append, List.mem_singleton] at member
    obtain inside | ends := member
    · obtain ⟨before, after, rfl⟩ := List.append_of_mem inside
      have same := (unique (before ++ [Byte.backslash]) (after ++ Byte.pipe :: payload) (by
        rw [esc_append, esc_append_pipe, esc_append, esc_append_pipe]
        simp)).2
      have lengths := congrArg List.length same
      rw [List.length_append, List.length_cons] at lengths
      omega
    · cases ends
  · intro member
    obtain ⟨before, after, rfl⟩ := List.append_of_mem member
    have same := (unique (start ++ Byte.pipe :: before ++ [Byte.backslash]) after (by
      rw [esc_append, esc_append_pipe, esc_append_pipe, esc_append]
      simp)).2
    have lengths := congrArg List.length same
    rw [List.length_append, List.length_cons] at lengths
    omega

end Alone

section Doubles

/-- The last two columns belong to these fields and this payload alone. -/
def Undoubled (fields : Fields) (payload : Bytes) : Prop :=
  ∀ others rest, columnsText others rest = columnsText fields payload →
    others = fields ∧ rest = payload

variable {fields : Fields} {payload : Bytes}

/-- A double may be given by its entries, in the order of their keys. -/
theorem Undoubled.entries (undoubled : Undoubled fields payload)
    {entries : List (Bytes × Bytes)} (rest : Bytes)
    (ordered : InKeyOrder entries)
    (same : fieldsText true entries ++ Byte.pipe :: esc rest = columnsText fields payload) :
    entries = fields.toList ∧ rest = payload := by
  have built := toList_insertAll ordered
  obtain ⟨maps, payloads⟩ := undoubled (insertAll ∅ entries) rest
    (by rw [columnsText, built, same])
  rw [← maps, built]
  exact ⟨rfl, payloads⟩

theorem Undoubled.unbroken (undoubled : Undoubled fields payload) : Unbroken payload := by
  apply esc_unique_iff.mp
  intro other same
  exact (undoubled fields other (by rw [columnsText, columnsText, same])).2

/-- The first two of several fields are written like one. -/
theorem Undoubled.single (undoubled : Undoubled fields payload) :
    fields.toList.length ≤ 1 := by
  cases listed : fields.toList with
  | nil => simp
  | cons first more =>
      cases more with
      | nil => simp
      | cons second others =>
          have ordered := inKeyOrder_toList fields
          rw [listed, inKeyOrder_cons] at ordered
          have merged : InKeyOrder
              ((first.1, first.2 ++ Byte.comma :: second.1 ++ Byte.equals :: second.2) :: others) :=
            inKeyOrder_cons.mpr ⟨fun entry member => ordered.1 entry (.tail _ member),
              (inKeyOrder_cons.mp ordered.2).2⟩
          have same := (undoubled.entries payload merged (by
            rw [columnsText, listed]
            simp [fieldsText, esc_append])).1
          rw [listed] at same
          have lengths := congrArg List.length same
          simp at lengths

/-- A double of a single field. -/
theorem Undoubled.field (undoubled : Undoubled fields payload) {key value : Bytes}
    (single : fields.toList = [(key, value)]) (otherKey otherValue rest : Bytes)
    (same : esc otherKey ++ Byte.equals :: esc otherValue ++ Byte.pipe :: esc rest =
      esc key ++ Byte.equals :: esc value ++ Byte.pipe :: esc payload) :
    otherKey = key ∧ otherValue = value ∧ rest = payload := by
  obtain ⟨entries, payloads⟩ := undoubled.entries rest
    (inKeyOrder_singleton (otherKey, otherValue)) (by
      rw [columnsText, single]
      simpa [fieldsText] using same)
  rw [single, List.cons.injEq, Prod.mk.injEq] at entries
  exact ⟨entries.1.1, entries.1.2, payloads⟩

theorem Undoubled.alone (undoubled : Undoubled fields payload) {key value : Bytes}
    (single : fields.toList = [(key, value)]) : Alone (fun _ => True) key value := by
  intro other text _ same
  obtain ⟨keys, values, -⟩ := undoubled.field single other text payload (by rw [same])
  exact ⟨keys, values⟩

theorem Undoubled.key (undoubled : Undoubled fields payload) {key value : Bytes}
    (single : fields.toList = [(key, value)]) : Byte.equals ∉ key ∧ Unbroken key := by
  have alone := undoubled.alone single
  refine ⟨?_, alone.key_unbroken fun _ _ => trivial⟩
  intro member
  obtain ⟨before, after, cut⟩ := List.append_of_mem member
  exact alone.not_fits_before cut trivial

theorem Undoubled.value (undoubled : Undoubled fields payload) {key value : Bytes}
    (single : fields.toList = [(key, value)]) : Byte.equals ∉ value ∧ Unbroken value := by
  have alone := undoubled.alone single
  exact ⟨alone.equals_notMem_value fun _ => trivial, alone.value_unbroken trivial⟩

theorem Undoubled.pipe_notMem (undoubled : Undoubled fields payload) {key value : Bytes}
    (single : fields.toList = [(key, value)])
    (ending : value.getLast? = some Byte.backslash) :
    Byte.pipe ∉ value ∧ Byte.pipe ∉ payload := by
  refine pipe_notMem_of_unique ?_ ending
  intro text rest same
  exact (undoubled.field single key text rest (by simpa using same)).2

theorem undoubled_iff : Undoubled fields payload ↔ Distinctive fields payload := by
  constructor
  · intro undoubled
    have single := undoubled.single
    cases listed : fields.toList with
    | nil =>
        exact { single := single, key := by simp [listed], value := by simp [listed]
                ending := by simp [listed], payload := undoubled.unbroken }
    | cons entry entries =>
        rw [listed, List.length_cons] at single
        have empty : entries = [] := List.length_eq_zero_iff.mp (by omega)
        rw [empty] at listed
        have only {other : Bytes × Bytes} (member : other ∈ fields.toList) : other = entry := by
          rw [listed] at member
          exact List.mem_singleton.mp member
        exact {
          single := undoubled.single
          key := fun other member => only member ▸ undoubled.key listed
          value := fun other member => only member ▸ undoubled.value listed
          ending := fun other member ending => by
            rw [only member] at ending ⊢
            exact undoubled.pipe_notMem listed ending
          payload := undoubled.unbroken }
  · intro distinctive others rest same
    exact distinctive.unique same

end Doubles

end ChaosLab

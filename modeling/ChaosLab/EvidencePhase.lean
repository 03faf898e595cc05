import ChaosLab.EvidenceCuts
import ChaosLab.Foundation.Lexicographic

/-! The last two columns of the record whose `phase` field is the terminal phase of a run. That
field is compared on its own too, so only another reading with the same phase is a double. -/

set_option autoImplicit false

namespace ChaosLab

open Foundation

def phaseKey : Bytes := ascii "phase"

section Key

theorem equals_notMem_phaseKey : Byte.equals ∉ phaseKey := by decide

theorem unbroken_phaseKey : Unbroken phaseKey := by decide

@[simp] theorem esc_phaseKey : esc phaseKey = phaseKey := by decide

theorem equals_lt_phaseKey : ∀ symbol ∈ phaseKey, compare Byte.equals symbol = .lt := by
  decide +kernel

theorem backslash_lt_phaseKey : ∀ symbol ∈ phaseKey, compare Byte.backslash symbol = .lt := by
  decide +kernel

end Key

section LastField

/-- What keeps the last field and the payload apart from others: an equality sign only in the
key, and there only behind the name of the phase, no line break and no escape of one, and no
backslash at the end of the value when there is a pipe that could be taken for the separator. -/
structure LastPlain (key value payload : Bytes) : Prop where
  keyPlain : Byte.equals ∉ key ∨
    ∃ more, key = phaseKey ++ Byte.equals :: more ∧ Byte.equals ∉ more
  keyUnbroken : Unbroken key
  valuePlain : Byte.equals ∉ value ∧ Unbroken value
  ending : value.getLast? = some Byte.backslash → Byte.pipe ∉ value ∧ Byte.pipe ∉ payload

variable {key value payload : Bytes}

/-- The keys that fit are those that leave the phase alone. -/
theorem Alone.lastPlain {fits : Bytes → Prop} (alone : Alone fits key value)
    (alike : ∀ other, esc other = esc key → fits other)
    (longer : ∀ more, fits (key ++ Byte.equals :: more))
    (inner : ∀ more, fits (phaseKey ++ Byte.equals :: more))
    (shorter : ∀ before after, key = before ++ Byte.equals :: after →
      before = phaseKey ∨ fits before)
    (unique : ∀ text rest, esc text ++ Byte.pipe :: esc rest =
      esc value ++ Byte.pipe :: esc payload → text = value ∧ rest = payload) :
    LastPlain key value payload := by
  refine {
    keyPlain := ?_
    keyUnbroken := alone.key_unbroken alike
    valuePlain := ⟨alone.equals_notMem_value longer, alone.value_unbroken (alike key rfl)⟩
    ending := pipe_notMem_of_unique unique }
  by_cases inside : Byte.equals ∈ key
  · obtain ⟨before, after, cut⟩ := List.append_of_mem inside
    obtain rfl | fitting := shorter before after cut
    · refine .inr ⟨after, cut, ?_⟩
      intro second
      obtain ⟨middle, behind, rfl⟩ := List.append_of_mem second
      have later : key = (phaseKey ++ Byte.equals :: middle) ++ Byte.equals :: behind := by
        simp [cut]
      exact alone.not_fits_before later (inner middle)
    · exact absurd fitting (alone.not_fits_before cut)
  · exact .inl inside

theorem LastPlain.value_unique (last : LastPlain key value payload) (plain : Unbroken payload)
    {text rest : Bytes}
    (same : esc text ++ Byte.pipe :: esc rest = esc value ++ Byte.pipe :: esc payload) :
    text = value ∧ rest = payload := by
  obtain ⟨values, payloads⟩ := ending_unique plain last.ending (guarded_esc text) same
  exact ⟨esc_unique_iff.mpr last.valuePlain.2 text values, payloads⟩

/-- The value cannot begin further on. -/
theorem LastPlain.value_unsplit (last : LastPlain key value payload) (plain : Unbroken payload)
    {more text rest : Bytes} :
    esc more ++ Byte.equals :: (esc text ++ Byte.pipe :: esc rest) ≠
      esc value ++ Byte.pipe :: esc payload := by
  intro same
  have whole : esc (more ++ Byte.equals :: text) ++ Byte.pipe :: esc rest =
      esc value ++ Byte.pipe :: esc payload := by
    rw [esc_append_cons rfl, ← same]
    simp
  exact last.valuePlain.1 (by rw [← (last.value_unique plain whole).1]; simp)

theorem LastPlain.cut (last : LastPlain key value payload) (plain : Unbroken payload)
    {tail text rest name : Bytes} (named : Byte.equals ∉ name ∧ Unbroken name)
    (same : esc tail ++ Byte.equals :: (esc text ++ Byte.pipe :: esc rest) =
      esc name ++ Byte.equals :: (esc value ++ Byte.pipe :: esc payload)) :
    tail = name ∧ text = value ∧ rest = payload := by
  obtain ⟨names, values⟩ | ⟨more, -, values⟩ := eq_or_eq_append_of_esc named same
  · exact ⟨names, last.value_unique plain values⟩
  · exact absurd values (last.value_unsplit plain)

theorem LastPlain.unique (last : LastPlain key value payload) (plain : Unbroken payload)
    {other text rest : Bytes} (further : other ≠ phaseKey)
    (same : esc other ++ Byte.equals :: (esc text ++ Byte.pipe :: esc rest) =
      esc key ++ Byte.equals :: (esc value ++ Byte.pipe :: esc payload)) :
    other = key ∧ text = value ∧ rest = payload := by
  obtain absent | ⟨more, rfl, absent⟩ := last.keyPlain
  · exact last.cut plain ⟨absent, last.keyUnbroken⟩ same
  · rw [esc_append_cons rfl, List.append_assoc, List.cons_append] at same
    obtain ⟨names, -⟩ | ⟨tail, rfl, tails⟩ :=
      eq_or_eq_append_of_esc ⟨equals_notMem_phaseKey, unbroken_phaseKey⟩ same
    · exact absurd names further
    · have unbroken : Unbroken more :=
        last.keyUnbroken.of_infix ⟨phaseKey ++ [Byte.equals], [], by simp⟩
      obtain ⟨names, rest⟩ := last.cut plain ⟨absent, unbroken⟩ tails
      exact ⟨by rw [names], rest⟩

end LastField

section Phase

variable {fields : Fields} {value : Bytes}

theorem getD_phaseKey_of_mem (member : (phaseKey, value) ∈ fields.toList) :
    fields.getD phaseKey [] = value := by
  rw [Std.ExtTreeMap.mem_toList_iff_getElem?_eq_some] at member
  rw [Std.ExtTreeMap.getD_eq_getD_getElem?, member, Option.getD_some]

theorem mem_of_getD_phaseKey (nonempty : value ≠ [])
    (found : fields.getD phaseKey [] = value) : (phaseKey, value) ∈ fields.toList := by
  rw [Std.ExtTreeMap.getD_eq_getD_getElem?] at found
  rw [Std.ExtTreeMap.mem_toList_iff_getElem?_eq_some]
  cases stored : fields[phaseKey]? with
  | none =>
      rw [stored, Option.getD_none] at found
      exact absurd found.symm nonempty
  | some text =>
      rw [stored, Option.getD_some] at found
      rw [found]

theorem getD_phaseKey_eq_nil_iff :
    fields.getD phaseKey [] = [] ↔ ∀ entry ∈ fields.toList, entry.1 = phaseKey → entry.2 = [] := by
  constructor
  · intro empty entry member named
    have found : (phaseKey, entry.2) ∈ fields.toList := by rwa [← named]
    rw [← getD_phaseKey_of_mem found, empty]
  · intro empty
    by_contra nonempty
    exact nonempty (empty _ (mem_of_getD_phaseKey nonempty rfl) rfl)

end Phase

/-- What stands before the value of a `phase` field that is not the first field. -/
def phaseMark : Bytes := Byte.comma :: (phaseKey ++ [Byte.equals])

/-- The columns from the end of the `phase` field on: no further field, or one. -/
inductive Closing : Bytes → Prop where
  | payload (rest : Bytes) : Closing (Byte.pipe :: esc rest)
  | field {key : Bytes} (value rest : Bytes) (later : compare phaseKey key = .lt) :
      Closing (Byte.comma :: (esc key ++ Byte.equals :: (esc value ++ Byte.pipe :: esc rest)))

/-- The text, which begins with the value of the `phase` field, has that field a second time. -/
def PhaseAgain (value text : Bytes) : Prop :=
  ∃ between after, text = esc between ++ (phaseMark ++ (esc value ++ after)) ∧ Closing after

/-- What keeps the last two columns of a record apart from those of every other one with the same
phase. A phase that is not empty marks its place in the text, so there may be a field on either
side of it. -/
inductive PhaseFields (payload : Bytes) : List (Bytes × Bytes) → Prop where
  | none : PhaseFields payload []
  | single {key value : Bytes} (empty : key = phaseKey → value = [])
      (last : LastPlain key value payload)
      (unsplit : ∀ more, key = phaseKey ++ Byte.equals :: Byte.comma :: more →
        compare phaseKey more ≠ .lt) :
      PhaseFields payload [(key, value)]
  | phased {lefts rights : List (Bytes × Bytes)} {value : Bytes} (nonempty : value ≠ [])
      (left : lefts.length ≤ 1)
      (leftPlain : ∀ entry ∈ lefts, (Byte.equals ∉ entry.1 ∧ Unbroken entry.1) ∧
        Byte.equals ∉ entry.2 ∧ Unbroken entry.2)
      (right : rights.length ≤ 1)
      (rightPlain : ∀ entry ∈ rights, LastPlain entry.1 entry.2 payload)
      (once : lefts ≠ [] → ¬ PhaseAgain value
        (esc value ++ (fieldsText false rights ++ Byte.pipe :: esc payload))) :
      PhaseFields payload (lefts ++ (phaseKey, value) :: rights)

def PhaseDistinctive (fields : Fields) (payload : Bytes) : Prop :=
  Unbroken payload ∧ PhaseFields payload fields.toList

section Reading

variable {value after others : Bytes}

theorem closing_fieldsText {entries : List (Bytes × Bytes)} (rest : Bytes)
    (later : ∀ entry ∈ entries, compare phaseKey entry.1 = .lt) :
    Closing (fieldsText false entries ++ Byte.pipe :: esc rest) := by
  cases entries with
  | nil => exact .payload rest
  | cons entry entries =>
      rw [fieldsText_false_cons, List.cons_append, List.append_assoc, List.cons_append]
      exact .field _ rest (later entry List.mem_cons_self)

theorem Closing.entries {text : Bytes} (closing : Closing text) :
    ∃ entries rest, text = fieldsText false entries ++ Byte.pipe :: esc rest ∧
      InKeyOrder entries ∧ ∀ entry ∈ entries, compare phaseKey entry.1 = .lt := by
  cases closing with
  | payload rest => exact ⟨[], rest, rfl, .nil, by simp⟩
  | @field key value rest later =>
      refine ⟨[(key, value)], rest, ?_, inKeyOrder_singleton _, by simpa using later⟩
      rw [fieldsText_false_singleton]
      simp

@[simp] theorem esc_phaseMark : esc phaseMark = phaseMark := by decide

theorem phaseMark_append (text : Bytes) :
    phaseMark ++ text = Byte.comma :: (phaseKey ++ Byte.equals :: text) := by
  simp [phaseMark]

/-- Where the mark cannot be met again, the text before it has one way to be read. -/
theorem phaseMark_unique {text other : Bytes} (plain : Byte.equals ∉ text ∧ Unbroken text)
    (once : ¬ PhaseAgain value (esc value ++ after)) (closing : Closing others)
    (same : esc other ++ (phaseMark ++ (esc value ++ others)) =
      esc text ++ (phaseMark ++ (esc value ++ after))) : other = text ∧ others = after := by
  have aligned {left right : Bytes} (tails : phaseMark ++ (esc value ++ left) =
      phaseMark ++ (esc value ++ right)) : left = right :=
    List.append_cancel_left (List.append_cancel_left tails)
  have alone : Byte.comma ∉ phaseKey ++ [Byte.equals] := by decide
  obtain ⟨middle, longer, tails⟩ | ⟨middle, longer, tails⟩ := List.append_eq_append_iff.mp same
  · obtain rfl | ⟨between, marked, -⟩ := eq_nil_or_of_append_eq alone tails.symm
    · rw [List.append_nil] at longer
      exact ⟨esc_unique_iff.mpr plain.2 other longer.symm, aligned tails⟩
    · rw [marked] at longer
      exact absurd (equals_mem_esc_iff.mp (by rw [longer]; simp)) plain.1
  · obtain rfl | ⟨between, marked, again⟩ := eq_nil_or_of_append_eq alone tails.symm
    · rw [List.append_nil] at longer
      exact ⟨esc_unique_iff.mpr plain.2 other longer, (aligned tails).symm⟩
    · have written : esc other =
          (esc text ++ Byte.comma :: phaseKey) ++ Byte.equals :: between := by
        rw [longer, marked]
        simp
      obtain ⟨-, read, -, -, escaped⟩ := esc_eq_append_equals written
      exact absurd ⟨read, others, by rw [escaped, again]; rfl, closing⟩ once

theorem leads_nil (value after : Bytes) :
    fieldsText true ([] ++ [(phaseKey, value)]) ++ after =
      esc phaseKey ++ Byte.equals :: (esc value ++ after) := by
  simp [fieldsText]

theorem leads_cons (entry : Bytes × Bytes) (entries : List (Bytes × Bytes))
    (value after : Bytes) :
    fieldsText true (entry :: entries ++ [(phaseKey, value)]) ++ after =
      esc entry.1 ++ Byte.equals :: (esc (entry.2 ++ restText entries) ++
        (phaseMark ++ (esc value ++ after))) := by
  rw [fieldsText_append (by simp), fieldsText_true_cons, phaseMark_append]
  simp [fieldsText]

theorem leads_rights (lefts rights : List (Bytes × Bytes)) (value after : Bytes) :
    fieldsText true (lefts ++ (phaseKey, value) :: rights) ++ after =
      fieldsText true (lefts ++ [(phaseKey, value)]) ++ (fieldsText false rights ++ after) := by
  rw [List.append_cons lefts, fieldsText_append (by simp), List.append_assoc]

/-- The fields before the phase. -/
theorem lefts_unique {lefts readings : List (Bytes × Bytes)} (short : lefts.length ≤ 1)
    (plain : ∀ entry ∈ lefts, (Byte.equals ∉ entry.1 ∧ Unbroken entry.1) ∧
      Byte.equals ∉ entry.2 ∧ Unbroken entry.2)
    (once : lefts ≠ [] → ¬ PhaseAgain value (esc value ++ after))
    (earlier : ∀ entry ∈ lefts, compare entry.1 phaseKey = .lt)
    (before : ∀ entry ∈ readings, compare entry.1 phaseKey = .lt) (closing : Closing others)
    (same : fieldsText true (readings ++ [(phaseKey, value)]) ++ others =
      fieldsText true (lefts ++ [(phaseKey, value)]) ++ after) :
    readings = lefts ∧ others = after := by
  have named : Byte.equals ∉ phaseKey ∧ Unbroken phaseKey :=
    ⟨equals_notMem_phaseKey, unbroken_phaseKey⟩
  have irreflexive {entry : Bytes × Bytes} (less : compare entry.1 phaseKey = .lt)
      (key : entry.1 = phaseKey) : False := by
    rw [key, Std.compare_self] at less
    cases less
  cases lefts with
  | nil =>
      rw [leads_nil] at same
      cases readings with
      | nil =>
          rw [leads_nil] at same
          exact ⟨rfl, List.append_cancel_left (List.cons.inj (List.append_cancel_left same)).2⟩
      | cons entry readings =>
          have less := before entry List.mem_cons_self
          rw [leads_cons] at same
          obtain ⟨key, -⟩ | ⟨more, key, -⟩ := eq_or_eq_append_of_esc named same
          · exact (irreflexive less key).elim
          · rw [key, Std.OrientedCmp.gt_of_lt (compare_self_append _)] at less
            cases less
  | cons left lefts =>
      obtain rfl : lefts = [] := by simpa using short
      obtain ⟨keyPlain, valuePlain⟩ := plain left List.mem_cons_self
      have less := earlier left List.mem_cons_self
      rw [leads_cons] at same
      cases readings with
      | nil =>
          rw [leads_nil] at same
          obtain ⟨key, -⟩ | ⟨more, key, -⟩ := eq_or_eq_append_of_esc keyPlain same
          · exact (irreflexive less key.symm).elim
          · exact absurd (by rw [key]; simp) equals_notMem_phaseKey
      | cons entry readings =>
          rw [leads_cons] at same
          have unescaped : left.2 ++ restText [] = left.2 := List.append_nil _
          rw [unescaped] at same
          obtain ⟨key, values⟩ | ⟨more, key, values⟩ := eq_or_eq_append_of_esc keyPlain same
          · obtain ⟨text, rest⟩ :=
              phaseMark_unique valuePlain (once (by simp)) closing values
            obtain ⟨rfl, value⟩ := eq_nil_of_restText valuePlain.1 text
            exact ⟨by rw [Prod.ext key value], rest⟩
          · have merged : esc (more ++ Byte.equals :: (entry.2 ++ restText readings)) ++
                (phaseMark ++ (esc value ++ others)) =
                esc left.2 ++ (phaseMark ++ (esc value ++ after)) := by
              rw [← values, esc_append_cons rfl]
              simp
            have text := (phaseMark_unique valuePlain (once (by simp)) closing merged).1
            exact absurd (by rw [← text]; simp) valuePlain.1

/-- The fields behind the phase. -/
theorem rights_unique {rights readings : List (Bytes × Bytes)} {payload rest : Bytes}
    (short : rights.length ≤ 1) (plain : ∀ entry ∈ rights, LastPlain entry.1 entry.2 payload)
    (unbroken : Unbroken payload) (later : ∀ entry ∈ readings, compare phaseKey entry.1 = .lt)
    (same : fieldsText false readings ++ Byte.pipe :: esc rest =
      fieldsText false rights ++ Byte.pipe :: esc payload) :
    readings = rights ∧ rest = payload := by
  cases rights with
  | nil =>
      cases readings with
      | nil => exact ⟨rfl, esc_unique_iff.mpr unbroken rest (List.cons.inj same).2⟩
      | cons entry readings =>
          rw [fieldsText_false_cons] at same
          cases (List.cons.inj same).1
  | cons right rights =>
      obtain rfl : rights = [] := by simpa using short
      rw [fieldsText_false_cons] at same
      cases readings with
      | nil => cases (List.cons.inj same).1
      | cons entry readings =>
          have last := plain right List.mem_cons_self
          have further : entry.1 ≠ phaseKey := by
            intro key
            have less := later entry List.mem_cons_self
            rw [key, Std.compare_self] at less
            cases less
          rw [fieldsText_false_cons] at same
          have unescaped : right.2 ++ restText [] = right.2 := List.append_nil _
          rw [unescaped] at same
          obtain ⟨key, text, payloads⟩ := last.unique unbroken further
            (by simpa using (List.cons.inj same).2)
          obtain ⟨rfl, value⟩ := eq_nil_of_restText last.valuePlain.1 text
          exact ⟨by rw [Prod.ext key value], payloads⟩

/-- After an empty phase the text cannot go on with other fields. -/
theorem LastPlain.unphased_unsplit {more payload rest : Bytes}
    {entries : List (Bytes × Bytes)}
    (last : LastPlain (phaseKey ++ Byte.equals :: more) value payload)
    (unbroken : Unbroken payload) (absent : Byte.equals ∉ more)
    (unsplit : ∀ name, phaseKey ++ Byte.equals :: more =
      phaseKey ++ Byte.equals :: Byte.comma :: name → compare phaseKey name ≠ .lt)
    (later : ∀ entry ∈ entries, compare phaseKey entry.1 = .lt) :
    fieldsText false entries ++ Byte.pipe :: esc rest ≠
      esc more ++ Byte.equals :: (esc value ++ Byte.pipe :: esc payload) := by
  intro same
  cases entries with
  | nil =>
      cases written : esc more with
      | nil =>
          rw [written] at same
          cases (List.cons.inj same).1
      | cons byte text =>
          rw [written] at same
          obtain ⟨rfl, -⟩ := List.cons.inj same
          obtain ⟨-, -, plain, -⟩ := esc_eq_cons (by decide) written
          cases plain
  | cons entry entries =>
      rw [fieldsText_false_cons] at same
      cases written : esc more with
      | nil =>
          rw [written] at same
          cases (List.cons.inj same).1
      | cons byte text =>
          rw [written] at same
          obtain ⟨rfl, tails⟩ := List.cons.inj same
          obtain ⟨name, rfl, -, rfl⟩ := esc_eq_cons (by decide) written
          have named : Byte.equals ∉ name ∧ Unbroken name :=
            ⟨fun inside => absent (.tail _ inside), last.keyUnbroken.of_infix
              ⟨phaseKey ++ [Byte.equals, Byte.comma], [], by simp⟩⟩
          have key := (last.cut unbroken named (by simpa using tails)).1
          exact unsplit name rfl (key ▸ later entry List.mem_cons_self)

/-- A single field where the phase is empty. -/
theorem eq_of_columnsText_unphased {fields others : Fields} {key value payload rest : Bytes}
    (single : fields.toList = [(key, value)]) (unbroken : Unbroken payload)
    (last : LastPlain key value payload)
    (unsplit : ∀ more, key = phaseKey ++ Byte.equals :: Byte.comma :: more →
      compare phaseKey more ≠ .lt)
    (empty : ∀ entry ∈ others.toList, entry.1 = phaseKey → entry.2 = [])
    (same : columnsText others rest = columnsText fields payload) :
    others = fields ∧ rest = payload := by
  obtain absent | ⟨more, rfl, absent⟩ := last.keyPlain
  · apply Distinctive.unique ?_ same
    exact { single := by simp [single], key := by simp [single, absent, last.keyUnbroken]
            value := by simpa [single] using last.valuePlain
            ending := by simpa [single] using last.ending, payload := unbroken }
  · cases listed : others.toList with
    | nil => exact absurd listed (ne_nil_of_columnsText (by simp [single]) same)
    | cons entry entries =>
        rw [columnsText, columnsText, listed, single, fieldsText_true_cons, fieldsText_true_cons,
          List.append_assoc, List.append_assoc, List.cons_append, List.cons_append] at same
        have unescaped : value ++ restText [] = value := List.append_nil _
        rw [unescaped] at same
        by_cases further : entry.1 = phaseKey
        · have read : fieldsText false entries ++ Byte.pipe :: esc rest =
              esc more ++ Byte.equals :: (esc value ++ Byte.pipe :: esc payload) := by
            rw [further, empty entry (by simp [listed]) further, List.nil_append, esc_restText,
              esc_append_cons rfl, List.append_assoc] at same
            exact (List.cons.inj (List.append_cancel_left same)).2
          have ordered := inKeyOrder_toList others
          rw [listed, inKeyOrder_cons, further] at ordered
          exact absurd read (last.unphased_unsplit unbroken absent unsplit ordered.1)
        · obtain ⟨key, text, payloads⟩ := last.unique unbroken further same
          obtain ⟨rfl, value⟩ := eq_nil_of_restText last.valuePlain.1 text
          refine ⟨eq_of_toList_eq ?_, payloads⟩
          rw [listed, single, ← key, ← value]

theorem PhaseDistinctive.unique {fields others : Fields} {payload rest : Bytes}
    (distinctive : PhaseDistinctive fields payload)
    (same : columnsText others rest = columnsText fields payload)
    (phase : others.getD phaseKey [] = fields.getD phaseKey []) :
    others = fields ∧ rest = payload := by
  obtain ⟨unbroken, distinctive⟩ := distinctive
  generalize listed : fields.toList = entries at distinctive
  cases distinctive with
  | none => exact eq_of_columnsText_nil listed unbroken same
  | single empty last unsplit =>
      have unphased : fields.getD phaseKey [] = [] := by
        rw [getD_phaseKey_eq_nil_iff, listed]
        simpa using empty
      rw [unphased, getD_phaseKey_eq_nil_iff] at phase
      exact eq_of_columnsText_unphased listed unbroken last unsplit phase same
  | @phased lefts rights value nonempty left leftPlain right rightPlain once =>
      have found : fields.getD phaseKey [] = value :=
        getD_phaseKey_of_mem (by rw [listed]; simp)
      obtain ⟨before, behind, read⟩ :=
        List.append_of_mem (mem_of_getD_phaseKey nonempty (phase.trans found))
      have ordered := inKeyOrder_toList fields
      have otherOrdered := inKeyOrder_toList others
      rw [listed, inKeyOrder_around] at ordered
      rw [read, inKeyOrder_around] at otherOrdered
      obtain ⟨-, -, earlier, -⟩ := ordered
      obtain ⟨-, -, otherEarlier, later⟩ := otherOrdered
      rw [columnsText, columnsText, listed, read, leads_rights before, leads_rights lefts] at same
      obtain ⟨rfl, tails⟩ := lefts_unique left leftPlain once earlier otherEarlier
        (closing_fieldsText rest later) same
      obtain ⟨rfl, payloads⟩ := rights_unique right rightPlain unbroken later tails
      exact ⟨eq_of_toList_eq (by rw [listed, read]), payloads⟩

end Reading

end ChaosLab

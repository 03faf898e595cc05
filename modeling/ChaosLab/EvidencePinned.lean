import ChaosLab.EvidencePhase

/-! Columns that are pinned by the phase are those the condition describes: each of its parts
fails where there is a double. -/

set_option autoImplicit false

namespace ChaosLab

open Foundation

section Pinned

/-- The last two columns belong to these fields and this payload alone, among those with the
same phase. -/
def Pinned (fields : Fields) (payload : Bytes) : Prop :=
  ∀ others rest, columnsText others rest = columnsText fields payload →
    others.getD phaseKey [] = fields.getD phaseKey [] → others = fields ∧ rest = payload

variable {fields : Fields} {payload : Bytes}

theorem Pinned.unbroken (pinned : Pinned fields payload) : Unbroken payload := by
  apply esc_unique_iff.mp
  intro other same
  exact (pinned fields other (by rw [columnsText, columnsText, same]) rfl).2

/-- A double may be given by its entries, in the order of their keys. -/
theorem Pinned.entries (pinned : Pinned fields payload) {entries : List (Bytes × Bytes)}
    (rest : Bytes) (ordered : InKeyOrder entries)
    (phase : ∀ others : Fields, others.toList = entries →
      others.getD phaseKey [] = fields.getD phaseKey [])
    (same : fieldsText true entries ++ Byte.pipe :: esc rest = columnsText fields payload) :
    entries = fields.toList ∧ rest = payload := by
  have built := toList_insertAll ordered
  obtain ⟨maps, payloads⟩ := pinned (insertAll ∅ entries) rest
    (by rw [columnsText, built, same]) (phase _ built)
  rw [← maps, built]
  exact ⟨rfl, payloads⟩

section Unphased

/-- One field, also in the place of several. -/
theorem Pinned.unphased (pinned : Pinned fields payload)
    (empty : fields.getD phaseKey [] = []) (key value rest : Bytes)
    (fits : key = phaseKey → value = [])
    (same : esc key ++ Byte.equals :: esc value ++ Byte.pipe :: esc rest =
      columnsText fields payload) : [(key, value)] = fields.toList ∧ rest = payload := by
  refine pinned.entries rest (inKeyOrder_singleton _) ?_ (by simpa [fieldsText] using same)
  intro others listed
  rw [empty, getD_phaseKey_eq_nil_iff, listed]
  simpa using fits

theorem Pinned.length_le_of_unphased (pinned : Pinned fields payload)
    (empty : fields.getD phaseKey [] = []) : fields.toList.length ≤ 1 := by
  have unphased := getD_phaseKey_eq_nil_iff.mp empty
  cases listed : fields.toList with
  | nil => simp
  | cons first entries =>
      cases entries with
      | nil => simp
      | cons second others =>
          have single : ∃ key value, [(key, value)] = fields.toList := by
            by_cases named : first.1 = phaseKey
            · refine ⟨_, _, (pinned.unphased empty
                (phaseKey ++ Byte.equals :: Byte.comma :: second.1)
                (second.2 ++ restText others) payload ?_ ?_).1⟩
              · intro same
                exact absurd (by rw [← same]; simp) equals_notMem_phaseKey
              · rw [columnsText, listed, fieldsText_true_cons, named,
                  unphased first (by simp [listed]) named]
                simp [restText, esc_append]
            · exact ⟨_, _, (pinned.unphased empty first.1 (first.2 ++ restText (second :: others))
                payload (absurd · named) (by rw [columnsText, listed, fieldsText_true_cons])).1⟩
          obtain ⟨key, value, whole⟩ := single
          rw [listed] at whole
          cases whole

theorem Pinned.alone_of_unphased (pinned : Pinned fields payload)
    (empty : fields.getD phaseKey [] = []) {key value : Bytes}
    (single : fields.toList = [(key, value)]) : Alone (· ≠ phaseKey) key value := by
  intro other text further same
  obtain ⟨entries, -⟩ := pinned.unphased empty other text payload (absurd · further) (by
    rw [same, columnsText, single]
    simp [fieldsText])
  rw [single, List.cons.injEq, Prod.mk.injEq] at entries
  exact entries.1

/-- The second field that the key of the first one could be read as the begin of. -/
theorem Pinned.unsplit (pinned : Pinned fields payload) (empty : fields.getD phaseKey [] = [])
    {value more : Bytes} (single :
      fields.toList = [(phaseKey ++ Byte.equals :: Byte.comma :: more, value)]) :
    compare phaseKey more ≠ .lt := by
  intro later
  have ordered : InKeyOrder [(phaseKey, []), (more, value)] :=
    inKeyOrder_cons.mpr ⟨by simpa using later, inKeyOrder_singleton _⟩
  obtain ⟨entries, -⟩ := pinned.entries payload ordered
    (fun others listed => by
      rw [empty]
      exact getD_phaseKey_of_mem (by simp [listed]))
    (by
      rw [columnsText, single]
      simp [fieldsText, esc_append])
  rw [single] at entries
  cases entries

theorem Pinned.fields_of_single (pinned : Pinned fields payload)
    (empty : fields.getD phaseKey [] = []) {key value : Bytes}
    (single : fields.toList = [(key, value)]) : PhaseFields payload [(key, value)] := by
  have unphased := getD_phaseKey_eq_nil_iff.mp empty (key, value) (by simp [single])
  have last : LastPlain key value payload := by
    by_cases named : key = phaseKey
    · have valueEmpty : value = [] := unphased named
      rw [named, valueEmpty]
      exact { keyPlain := .inl equals_notMem_phaseKey, keyUnbroken := unbroken_phaseKey
              valuePlain := by decide, ending := fun ends => absurd ends (by decide) }
    · refine (pinned.alone_of_unphased empty single).lastPlain ?_ ?_ ?_ ?_ ?_
      · intro other same further
        exact named (esc_unique_iff.mpr unbroken_phaseKey key (by rw [← same, further]))
      · intro more same
        exact equals_notMem_phaseKey (by rw [← same]; simp)
      · intro more same
        exact equals_notMem_phaseKey (by rw [← same]; simp)
      · intro before after _
        exact em (before = phaseKey)
      · intro text rest same
        obtain ⟨entries, payloads⟩ := pinned.unphased empty key text rest (absurd · named) (by
          rw [columnsText, single]
          simpa [fieldsText] using same)
        rw [single, List.cons.injEq, Prod.mk.injEq] at entries
        exact ⟨entries.1.2, payloads⟩
  refine .single unphased last ?_
  intro more key
  exact pinned.unsplit empty (key ▸ single)

end Unphased

section Phased

variable {lefts rights : List (Bytes × Bytes)} {value : Bytes}

/-- The phase stays, what is on either side of it is read in another way. -/
theorem Pinned.around (pinned : Pinned fields payload)
    (listed : fields.toList = lefts ++ (phaseKey, value) :: rights)
    (before behind : List (Bytes × Bytes)) (rest : Bytes)
    (ordered : InKeyOrder (before ++ (phaseKey, value) :: behind))
    (same : fieldsText true (before ++ [(phaseKey, value)]) ++
        (fieldsText false behind ++ Byte.pipe :: esc rest) =
      fieldsText true (lefts ++ [(phaseKey, value)]) ++
        (fieldsText false rights ++ Byte.pipe :: esc payload)) :
    before ++ (phaseKey, value) :: behind = lefts ++ (phaseKey, value) :: rights ∧
      rest = payload := by
  rw [← listed]
  refine pinned.entries rest ordered ?_ ?_
  · intro others read
    have found : fields.getD phaseKey [] = value := getD_phaseKey_of_mem (by simp [listed])
    rw [found]
    exact getD_phaseKey_of_mem (by simp [read])
  · rw [columnsText, listed, leads_rights before, leads_rights lefts, same]

theorem ordered_around (listed : fields.toList = lefts ++ (phaseKey, value) :: rights) :
    InKeyOrder lefts ∧ InKeyOrder rights ∧ (∀ entry ∈ lefts, compare entry.1 phaseKey = .lt) ∧
      ∀ entry ∈ rights, compare phaseKey entry.1 = .lt :=
  inKeyOrder_around.mp (listed ▸ inKeyOrder_toList fields)

/-- One field in the place of those before the phase. -/
theorem Pinned.left (pinned : Pinned fields payload)
    (listed : fields.toList = lefts ++ (phaseKey, value) :: rights) (nonempty : lefts ≠ [])
    {key text : Bytes} (earlier : compare key phaseKey = .lt)
    (same : fieldsText true [(key, text)] = fieldsText true lefts) : [(key, text)] = lefts := by
  obtain ⟨-, right, -, later⟩ := ordered_around listed
  have whole := (pinned.around listed [(key, text)] rights payload
    (inKeyOrder_around.mpr ⟨inKeyOrder_singleton _, right, by simpa using earlier, later⟩) (by
      rw [fieldsText_append (by simp), fieldsText_append nonempty, same])).1
  exact List.append_cancel_right whole

/-- One field in the place of those behind the phase. -/
theorem Pinned.right (pinned : Pinned fields payload)
    (listed : fields.toList = lefts ++ (phaseKey, value) :: rights)
    {key text rest : Bytes} (later : compare phaseKey key = .lt)
    (same : fieldsText false [(key, text)] ++ Byte.pipe :: esc rest =
      fieldsText false rights ++ Byte.pipe :: esc payload) :
    [(key, text)] = rights ∧ rest = payload := by
  obtain ⟨left, -, earlier, -⟩ := ordered_around listed
  obtain ⟨whole, payloads⟩ := pinned.around listed lefts [(key, text)] rest
    (inKeyOrder_around.mpr ⟨left, inKeyOrder_singleton _, earlier, by simpa using later⟩)
    (by rw [same])
  exact ⟨(List.cons.inj (List.append_cancel_left whole)).2, payloads⟩

theorem Pinned.length_le_left (pinned : Pinned fields payload)
    (listed : fields.toList = lefts ++ (phaseKey, value) :: rights) : lefts.length ≤ 1 := by
  cases lefts with
  | nil => simp
  | cons first more =>
      have earlier := (ordered_around listed).2.2.1 first List.mem_cons_self
      have merged := pinned.left listed (by simp) earlier
        ((fieldsText_singleton _ _).trans (fieldsText_true_cons first more).symm)
      have lengths := congrArg List.length merged
      simp only [List.length_singleton] at lengths
      exact lengths.ge

theorem Pinned.length_le_right (pinned : Pinned fields payload)
    (listed : fields.toList = lefts ++ (phaseKey, value) :: rights) : rights.length ≤ 1 := by
  cases rights with
  | nil => simp
  | cons first more =>
      have later := (ordered_around listed).2.2.2 first List.mem_cons_self
      have same : fieldsText false [(first.1, first.2 ++ restText more)] =
          fieldsText false (first :: more) := by
        rw [fieldsText_false_singleton, fieldsText_false_cons]
      have merged := (pinned.right listed later (congrArg (· ++ Byte.pipe :: esc payload) same)).1
      have lengths := congrArg List.length merged
      simp only [List.length_singleton] at lengths
      exact lengths.ge

theorem Pinned.left_plain (pinned : Pinned fields payload)
    (listed : fields.toList = lefts ++ (phaseKey, value) :: rights) {entry : Bytes × Bytes}
    (member : entry ∈ lefts) :
    (Byte.equals ∉ entry.1 ∧ Unbroken entry.1) ∧ Byte.equals ∉ entry.2 ∧ Unbroken entry.2 := by
  obtain ⟨left, rfl⟩ := List.length_eq_one_iff.mp
    (le_antisymm (pinned.length_le_left listed) (List.length_pos_of_mem member))
  obtain rfl := List.mem_singleton.mp member
  have earlier := (ordered_around listed).2.2.1 entry List.mem_cons_self
  have alone : Alone (fun key => compare key phaseKey = .lt) entry.1 entry.2 := by
    intro key text fits same
    have single := pinned.left listed (by simp) fits
      (by rw [fieldsText_singleton, fieldsText_singleton, same])
    rw [List.cons.injEq, Prod.ext_iff] at single
    exact single.1
  refine ⟨⟨?_, ?_⟩, ?_, ?_⟩
  · intro inside
    obtain ⟨before, after, cut⟩ := List.append_of_mem inside
    exact alone.not_fits_before cut (compare_of_append (Byte.equals :: after) (cut ▸ earlier))
  · apply alone.key_unbroken
    intro other same
    rw [compare_eq_of_esc_eq backslash_lt_phaseKey same, earlier]
  · apply alone.equals_notMem_value
    intro more
    exact compare_append_mark equals_lt_phaseKey earlier
  · exact alone.value_unbroken earlier

theorem Pinned.right_plain (pinned : Pinned fields payload)
    (listed : fields.toList = lefts ++ (phaseKey, value) :: rights) {entry : Bytes × Bytes}
    (member : entry ∈ rights) : LastPlain entry.1 entry.2 payload := by
  obtain ⟨right, rfl⟩ := List.length_eq_one_iff.mp
    (le_antisymm (pinned.length_le_right listed) (List.length_pos_of_mem member))
  obtain rfl := List.mem_singleton.mp member
  have later := (ordered_around listed).2.2.2 entry List.mem_cons_self
  have alone : Alone (fun key => compare phaseKey key = .lt) entry.1 entry.2 := by
    intro key text fits same
    have single := (pinned.right listed fits (by
      rw [fieldsText_false_singleton, fieldsText_false_singleton, same])).1
    rw [List.cons.injEq, Prod.ext_iff] at single
    exact single.1
  refine alone.lastPlain ?_ ?_ ?_ ?_ ?_
  · intro other same
    rw [← Std.OrientedCmp.gt_iff_lt, compare_eq_of_esc_eq backslash_lt_phaseKey same,
      Std.OrientedCmp.gt_iff_lt, later]
  · intro more
    exact compare_append_right later _
  · intro more
    exact compare_self_append _
  · intro before after cut
    exact eq_or_compare_of_append_mark equals_lt_phaseKey (cut ▸ later)
  · intro text rest same
    have replaced : fieldsText false [(entry.1, text)] ++ Byte.pipe :: esc rest =
        fieldsText false [entry] ++ Byte.pipe :: esc payload := by
      rw [fieldsText_false_singleton, fieldsText_false_singleton]
      simpa using same
    obtain ⟨single, payloads⟩ := pinned.right listed later replaced
    rw [List.cons.injEq, Prod.ext_iff] at single
    exact ⟨single.1.2, payloads⟩

/-- Otherwise the first occurrence of the phase could belong to the value before it. -/
theorem Pinned.once (pinned : Pinned fields payload)
    (listed : fields.toList = lefts ++ (phaseKey, value) :: rights) (nonempty : lefts ≠ []) :
    ¬ PhaseAgain value (esc value ++ (fieldsText false rights ++ Byte.pipe :: esc payload)) := by
  intro again
  obtain ⟨between, after, text, closing⟩ := again
  obtain ⟨behind, rest, rfl, sorted, later⟩ := closing.entries
  obtain ⟨left, rfl⟩ := List.length_eq_one_iff.mp
    (le_antisymm (pinned.length_le_left listed) (List.length_pos_of_ne_nil nonempty))
  have earlier := (ordered_around listed).2.2.1
  have doubled := (pinned.around listed [(left.1, left.2 ++ (phaseMark ++ between))] behind rest
    (inKeyOrder_around.mpr ⟨inKeyOrder_singleton _, sorted, by simpa using earlier, later⟩) (by
      rw [leads_cons, leads_cons, text, restText, List.flatMap_nil, List.append_nil,
        List.append_nil, esc_append, esc_append, esc_phaseMark]
      simp only [List.append_assoc])).1
  have values := congrArg Prod.snd (List.cons.inj doubled).1
  have lengths := congrArg List.length values
  simp [phaseMark] at lengths

theorem Pinned.distinctive (pinned : Pinned fields payload) : PhaseDistinctive fields payload := by
  refine ⟨pinned.unbroken, ?_⟩
  by_cases empty : fields.getD phaseKey [] = []
  · have short := pinned.length_le_of_unphased empty
    cases listed : fields.toList with
    | nil => exact .none
    | cons entry entries =>
        rw [listed, List.length_cons] at short
        obtain rfl : entries = [] := List.length_eq_zero_iff.mp (by omega)
        exact pinned.fields_of_single empty listed
  · obtain ⟨lefts, rights, listed⟩ := List.append_of_mem (mem_of_getD_phaseKey empty rfl)
    rw [listed]
    exact .phased empty (pinned.length_le_left listed)
      (fun _ member => pinned.left_plain listed member) (pinned.length_le_right listed)
      (fun _ member => pinned.right_plain listed member) (pinned.once listed)

end Phased

theorem pinned_iff : Pinned fields payload ↔ PhaseDistinctive fields payload := by
  constructor
  · exact Pinned.distinctive
  · intro distinctive others rest same phase
    exact distinctive.unique same phase

end Pinned

end ChaosLab

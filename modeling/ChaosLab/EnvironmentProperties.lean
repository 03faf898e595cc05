import ChaosLab.Process
import ChaosLab.Foundation.OrderedMap

/-! What the environment block of a process makes of the environment of the
parent and the overrides. -/

set_option autoImplicit false

namespace ChaosLab

open Foundation

section Entries

/-- The name of an entry. An `=` in front belongs to the name. -/
def envName : Bytes → Bytes
  | [] => []
  | first :: rest => first :: rest.takeWhile (· ≠ Byte.equals)

def envValue (entry : Bytes) : Bytes := entry.drop ((envName entry).length + 1)

structure IsEntry (entry : Bytes) : Prop where
  named : ∃ name value, entry = environmentEntry name value ∧ name ≠ [] ∧ Byte.equals ∉ name.tail
  closed : Byte.nul ∉ entry

/-- What a name of an override is required to be. -/
structure IsName (name : Bytes) : Prop where
  nonempty : name ≠ []
  plain : Byte.equals ∉ name
  closed : Byte.nul ∉ name

theorem envName_environmentEntry {name : Bytes} (nonempty : name ≠ [])
    (plain : Byte.equals ∉ name.tail) (value : Bytes) :
    envName (environmentEntry name value) = name := by
  obtain ⟨first, rest, rfl⟩ := List.exists_cons_of_ne_nil nonempty
  have whole : ∀ byte ∈ rest, decide (byte ≠ Byte.equals) = true := by
    intro byte member
    apply decide_eq_true
    rintro rfl
    exact plain member
  simp only [environmentEntry, List.cons_append, envName, List.append_assoc,
    List.takeWhile_append_of_pos whole]
  simp

theorem IsName.envName {name : Bytes} (valid : IsName name) (value : Bytes) :
    ChaosLab.envName (environmentEntry name value) = name :=
  envName_environmentEntry valid.nonempty (fun member => valid.plain (List.mem_of_mem_tail member))
    value

theorem IsName.isEntry {name value : Bytes} (valid : IsName name) (closed : Byte.nul ∉ value) :
    IsEntry (environmentEntry name value) where
  named := ⟨name, value, rfl, valid.nonempty,
    fun member => valid.plain (List.mem_of_mem_tail member)⟩
  closed := by
    have apart : Byte.nul ≠ Byte.equals := by decide
    simp [environmentEntry, valid.closed, closed, apart]

theorem IsEntry.clean {entry : Bytes} (isEntry : IsEntry entry) :
    entry ≠ [] ∧ Byte.nul ∉ entry := by
  refine ⟨?_, isEntry.closed⟩
  obtain ⟨name, value, rfl, _⟩ := isEntry.named
  simp [environmentEntry]

theorem startsWith_eq_true_iff {text start : Bytes} : startsWith text start = true ↔ start <+: text := by
  rw [startsWith, decide_eq_true_eq, List.prefix_iff_eq_take]
  constructor
  · intro both
    exact both.2.symm
  · intro same
    exact ⟨same ▸ List.length_take_le' .., same.symm⟩

/-- The scan of the second loop compares whole names. -/
theorem startsWith_iff_envName {entry name : Bytes} (isEntry : IsEntry entry)
    (valid : IsName name) :
    startsWith entry (name ++ [Byte.equals]) = true ↔ envName entry = name := by
  rw [startsWith_eq_true_iff]
  constructor
  · rintro ⟨value, rfl⟩
    exact valid.envName value
  · intro same
    obtain ⟨_, value, rfl, nonempty, plain⟩ := isEntry.named
    rw [envName_environmentEntry nonempty plain] at same
    exact ⟨value, by rw [same, environmentEntry]⟩

end Entries

section Overlay

variable {overrides : Overrides}

theorem overlayEntry_of_mem {entry : Bytes} (isEntry : IsEntry entry) {pair : Bytes × Bytes}
    (valid : IsName pair.1) (member : pair ∈ overrides.toList) (named : envName entry = pair.1) :
    overlayEntry overrides entry = environmentEntry pair.1 pair.2 := by
  obtain ⟨name, value, rfl, nonempty, plain⟩ := isEntry.named
  rw [envName_environmentEntry nonempty plain] at named
  subst named
  have cut : cutAt Byte.equals (environmentEntry pair.1 value) = some (pair.1, value) := by
    rw [environmentEntry, List.append_assoc, List.singleton_append, cutAt_append valid.plain]
  have found := find?_key_of_mem (nodup_keys_toList overrides) member
  simp only [overlayEntry, cut, found]

theorem overlayEntry_of_notMem {entry : Bytes} (isEntry : IsEntry entry)
    (valid : ∀ pair ∈ overrides.toList, IsName pair.1)
    (other : ∀ pair ∈ overrides.toList, pair.1 ≠ envName entry) :
    overlayEntry overrides entry = entry := by
  obtain ⟨name, value, rfl, nonempty, plain⟩ := isEntry.named
  rw [envName_environmentEntry nonempty plain] at other
  unfold overlayEntry
  cases cut : cutAt Byte.equals (environmentEntry name value) with
  | none => rfl
  | some parts =>
      obtain ⟨key, after⟩ := parts
      obtain ⟨absent, whole⟩ := cutAt_eq_some_iff.mp cut
      have missing : (overrides.toList.find? fun pair => pair.1 = key) = none := by
        apply List.find?_eq_none.mpr
        intro pair member same
        have named : pair.1 = key := of_decide_eq_true same
        -- The key ends at the first `=`, which is part of the name where it stands in front.
        have read := (valid pair member).envName after
        rw [named, environmentEntry, List.append_assoc, List.singleton_append, ← whole,
          envName_environmentEntry nonempty plain] at read
        exact other pair member (named.trans read.symm)
      simp only [missing]

theorem envName_overlayEntry {entry : Bytes} (isEntry : IsEntry entry)
    (valid : ∀ pair ∈ overrides.toList, IsName pair.1) :
    envName (overlayEntry overrides entry) = envName entry := by
  by_cases named : ∃ pair ∈ overrides.toList, envName entry = pair.1
  · obtain ⟨pair, member, same⟩ := named
    rw [overlayEntry_of_mem isEntry (valid pair member) member same,
      (valid pair member).envName, same]
  · push Not at named
    rw [overlayEntry_of_notMem isEntry valid fun pair member => (named pair member).symm]

theorem isEntry_overlayEntry {entry : Bytes} (isEntry : IsEntry entry)
    (valid : ∀ pair ∈ overrides.toList, IsName pair.1)
    (closed : ∀ pair ∈ overrides.toList, Byte.nul ∉ pair.2) :
    IsEntry (overlayEntry overrides entry) := by
  by_cases named : ∃ pair ∈ overrides.toList, envName entry = pair.1
  · obtain ⟨pair, member, same⟩ := named
    rw [overlayEntry_of_mem isEntry (valid pair member) member same]
    exact (valid pair member).isEntry (closed pair member)
  · push Not at named
    rwa [overlayEntry_of_notMem isEntry valid fun pair member => (named pair member).symm]

/-- The overrides whose name none of the entries has. -/
def missing (pairs : List (Bytes × Bytes)) (names : List Bytes) : List (Bytes × Bytes) :=
  pairs.filter fun pair => !names.contains pair.1

/-- The entries that the second loop leaves. -/
def withMissing (entries : List Bytes) (pairs : List (Bytes × Bytes)) : List Bytes :=
  entries ++ (missing pairs (entries.map envName)).map fun pair => environmentEntry pair.1 pair.2

theorem scan_eq {entries : List Bytes} (isEntry : ∀ entry ∈ entries, IsEntry entry)
    {name : Bytes} (valid : IsName name) :
    anyEntryFrom Byte.nul (fun entry => startsWith entry (name ++ [Byte.equals])) []
        (terminated Byte.nul entries) = decide (name ∈ entries.map envName) := by
  rw [anyEntryFrom_terminated _ fun entry member => (isEntry entry member).closed,
    Bool.eq_iff_iff, List.any_eq_true, decide_eq_true_eq, List.mem_map]
  constructor
  · rintro ⟨entry, member, found⟩
    exact ⟨entry, member, (startsWith_iff_envName (isEntry entry member) valid).mp found⟩
  · rintro ⟨entry, member, same⟩
    exact ⟨entry, member, (startsWith_iff_envName (isEntry entry member) valid).mpr same⟩

/-- Every override is looked for among the entries that are there by then. -/
theorem foldl_appendOverride {entries : List Bytes} {pairs : List (Bytes × Bytes)}
    (isEntry : ∀ entry ∈ entries, IsEntry entry) (valid : ∀ pair ∈ pairs, IsName pair.1)
    (closed : ∀ pair ∈ pairs, Byte.nul ∉ pair.2) (distinct : (pairs.map Prod.fst).Nodup) :
    pairs.foldl appendOverride (terminated Byte.nul entries) =
      terminated Byte.nul (withMissing entries pairs) := by
  induction pairs generalizing entries with
  | nil => simp [withMissing, missing]
  | cons pair pairs ih =>
      have name := valid pair (.head _)
      obtain ⟨fresh, distinct⟩ := List.nodup_cons.mp distinct
      have others := fun entries isEntry => @ih entries isEntry
        (fun other member => valid other (.tail _ member))
        (fun other member => closed other (.tail _ member)) distinct
      rw [List.foldl_cons, appendOverride, scan_eq isEntry name]
      by_cases found : pair.1 ∈ entries.map envName
      · rw [if_pos (decide_eq_true found), others entries isEntry, withMissing, withMissing,
          missing, missing, List.filter_cons_of_neg (by simpa using found)]
      · rw [if_neg (by simpa using found)]
        have added : IsEntry (environmentEntry pair.1 pair.2) :=
          name.isEntry (closed pair (.head _))
        have grown : terminated Byte.nul entries ++ environmentEntry pair.1 pair.2 ++ [Byte.nul] =
            terminated Byte.nul (entries ++ [environmentEntry pair.1 pair.2]) := by
          rw [terminated_append, terminated_cons, List.append_assoc]
          rfl
        have same : missing pairs ((entries ++ [environmentEntry pair.1 pair.2]).map envName) =
            missing pairs (entries.map envName) := by
          apply List.filter_congr
          intro other member
          have apart : other.1 ≠ pair.1 := fun same => fresh (List.mem_map.mpr ⟨other, member, same⟩)
          simp [name.envName, apart]
        rw [grown, others _ (List.forall_mem_append.mpr ⟨isEntry, by simpa using added⟩),
          withMissing, withMissing, same, missing, missing,
          List.filter_cons_of_pos (by simpa using found)]
        simp

end Overlay

section Laws

variable (fold : Bytes → Bytes)

/-- The environment of a parent: names are the same ignoring case when `fold` takes
them to the same text. -/
structure ParentEnvironment (parent : List Bytes) : Prop where
  isEntry : ∀ entry ∈ parent, IsEntry entry
  distinct : (parent.map fun entry => fold (envName entry)).Nodup

structure ValidOverrides (overrides : Overrides) : Prop where
  valid : ∀ pair ∈ overrides.toList, IsName pair.1
  distinct : (overrides.toList.map fun pair => fold pair.1).Nodup

/-- What an environment is when the overrides have taken effect on it. -/
structure Overlaid (parent : List Bytes) (overrides : Overrides) (entries : List Bytes) : Prop where
  carried : ∀ pair ∈ overrides.toList,
    ∃ entry, entries.find? (fun entry => fold (envName entry) = fold pair.1) = some entry ∧
      envValue entry = pair.2
  kept : ∀ entry ∈ parent,
    (∀ pair ∈ overrides.toList, fold pair.1 ≠ fold (envName entry)) → entry ∈ entries
  distinct : (entries.map fun entry => fold (envName entry)).Nodup

variable {fold} {parent : List Bytes} {overrides : Overrides}

section Entries

variable (environment : ParentEnvironment fold parent) (names : ValidOverrides fold overrides)
  (closed : ∀ pair ∈ overrides.toList, Byte.nul ∉ pair.2)

/-- The entries of the block that is built. -/
def overlaidEntries (parent : List Bytes) (overrides : Overrides) : List Bytes :=
  withMissing (parent.map (overlayEntry overrides)) overrides.toList

include environment names closed in
theorem isEntry_of_mem_overlaidEntries {entry : Bytes}
    (member : entry ∈ overlaidEntries parent overrides) : IsEntry entry := by
  rcases List.mem_append.mp member with old | new
  · obtain ⟨before, inside, rfl⟩ := List.mem_map.mp old
    exact isEntry_overlayEntry (environment.isEntry before inside) names.valid closed
  · obtain ⟨pair, inside, rfl⟩ := List.mem_map.mp new
    have listed := (List.mem_filter.mp inside).1
    exact (names.valid pair listed).isEntry (closed pair listed)

include environment names closed in
theorem entriesFrom_buildEnvironmentBlock :
    entriesFrom Byte.nul [] (buildEnvironmentBlock
        (some (terminated Byte.nul parent ++ [Byte.nul])) overrides) =
      overlaidEntries parent overrides := by
  have read := entriesFrom_terminated (fun entry member => (environment.isEntry entry member).clean)
    []
  have overlaid : ∀ entry ∈ parent.map (overlayEntry overrides), IsEntry entry := by
    intro entry member
    obtain ⟨before, inside, rfl⟩ := List.mem_map.mp member
    exact isEntry_overlayEntry (environment.isEntry before inside) names.valid closed
  simp only [buildEnvironmentBlock, read]
  rw [foldl_appendOverride overlaid names.valid closed (nodup_keys_toList overrides)]
  apply entriesFrom_terminated
  intro entry member
  exact (isEntry_of_mem_overlaidEntries environment names closed member).clean

include environment names in
theorem map_envName_overlayEntry :
    (parent.map (overlayEntry overrides)).map envName = parent.map envName := by
  rw [List.map_map]
  apply List.map_congr_left
  intro entry member
  exact envName_overlayEntry (environment.isEntry entry member) names.valid

include environment names in
theorem names_overlaidEntries :
    (overlaidEntries parent overrides).map envName =
      parent.map envName ++ (missing overrides.toList (parent.map envName)).map Prod.fst := by
  have old := map_envName_overlayEntry environment names
  rw [overlaidEntries, withMissing, List.map_append, old, List.map_map]
  congr 1
  apply List.map_congr_left
  intro pair member
  exact (names.valid pair (List.mem_filter.mp member).1).envName pair.2

end Entries

/-- An override has the very name of the entry it is to replace. -/
def NamesAgree (fold : Bytes → Bytes) (parent : List Bytes) (overrides : Overrides) : Prop :=
  ∀ entry ∈ parent, ∀ pair ∈ overrides.toList,
    fold (envName entry) = fold pair.1 → envName entry = pair.1

theorem distinct_iff_namesAgree (environment : ParentEnvironment fold parent)
    (names : ValidOverrides fold overrides) :
    ((overlaidEntries parent overrides).map fun entry => fold (envName entry)).Nodup ↔
      NamesAgree fold parent overrides := by
  have whole : ((overlaidEntries parent overrides).map fun entry => fold (envName entry)) =
      parent.map (fun entry => fold (envName entry)) ++
        (missing overrides.toList (parent.map envName)).map fun pair => fold pair.1 := by
    have mapped := congrArg (List.map fold) (names_overlaidEntries environment names)
    simpa [Function.comp_def] using mapped
  rw [whole, List.nodup_append']
  constructor
  · rintro ⟨_, _, apart⟩ entry member pair listed same
    by_contra different
    have absent : pair.1 ∉ parent.map envName := by
      intro found
      obtain ⟨other, inside, named⟩ := List.mem_map.mp found
      have alike := List.inj_on_of_nodup_map environment.distinct inside member
        (by rw [named, same])
      exact different (alike ▸ named)
    have unlisted : pair ∈ missing overrides.toList (parent.map envName) :=
      List.mem_filter.mpr ⟨listed, by simpa using absent⟩
    exact apart (List.mem_map_of_mem member) (List.mem_map.mpr ⟨pair, unlisted, same.symm⟩)
  · intro agree
    refine ⟨environment.distinct, names.distinct.sublist (List.filter_sublist.map _), ?_⟩
    intro key old new
    obtain ⟨entry, member, rfl⟩ := List.mem_map.mp old
    obtain ⟨pair, unlisted, same⟩ := List.mem_map.mp new
    obtain ⟨listed, absent⟩ := List.mem_filter.mp unlisted
    have named := agree entry member pair listed same.symm
    have unnamed : pair.1 ∉ parent.map envName := by simpa using absent
    exact unnamed (named ▸ List.mem_map_of_mem member)

/-- Each override is an entry of the block, in the place of the one it replaces or
at the end. -/
theorem environmentEntry_mem_overlaidEntries (environment : ParentEnvironment fold parent)
    (names : ValidOverrides fold overrides) {pair : Bytes × Bytes}
    (listed : pair ∈ overrides.toList) :
    environmentEntry pair.1 pair.2 ∈ overlaidEntries parent overrides := by
  apply List.mem_append.mpr
  by_cases found : pair.1 ∈ parent.map envName
  · left
    obtain ⟨entry, member, named⟩ := List.mem_map.mp found
    have replaced := overlayEntry_of_mem (environment.isEntry entry member)
      (names.valid pair listed) listed named
    exact List.mem_map.mpr ⟨entry, member, replaced⟩
  · right
    rw [map_envName_overlayEntry environment names]
    exact List.mem_map.mpr ⟨pair, List.mem_filter.mpr ⟨listed, by simpa using found⟩, rfl⟩

/-- The overrides take effect exactly when each has the very name of the entry it is
to replace, and no value ends its entry early. -/
theorem buildEnvironmentBlock_overlaid_iff (environment : ParentEnvironment fold parent)
    (names : ValidOverrides fold overrides) :
    Overlaid fold parent overrides (entriesFrom Byte.nul [] (buildEnvironmentBlock
        (some (terminated Byte.nul parent ++ [Byte.nul])) overrides)) ↔
      (∀ pair ∈ overrides.toList, Byte.nul ∉ pair.2) ∧ NamesAgree fold parent overrides := by
  constructor
  · intro overlaid
    have closed : ∀ pair ∈ overrides.toList, Byte.nul ∉ pair.2 := by
      intro pair listed
      obtain ⟨entry, first, value⟩ := overlaid.carried pair listed
      have absent := notMem_of_mem_entriesFrom List.not_mem_nil (List.mem_of_find?_eq_some first)
      rw [← value]
      exact fun member => absent (List.mem_of_mem_drop member)
    rw [entriesFrom_buildEnvironmentBlock environment names closed] at overlaid
    exact ⟨closed, (distinct_iff_namesAgree environment names).mp overlaid.distinct⟩
  · rintro ⟨closed, agree⟩
    rw [entriesFrom_buildEnvironmentBlock environment names closed]
    have distinct := (distinct_iff_namesAgree environment names).mpr agree
    refine ⟨?_, ?_, distinct⟩
    · intro pair listed
      have first := find?_key_of_mem distinct
        (environmentEntry_mem_overlaidEntries environment names listed)
      rw [(names.valid pair listed).envName] at first
      refine ⟨_, first, ?_⟩
      rw [envValue, (names.valid pair listed).envName, environmentEntry]
      simp
    · intro entry member other
      have unchanged := overlayEntry_of_notMem (environment.isEntry entry member) names.valid
        fun pair listed same => other pair listed (congrArg fold same)
      exact List.mem_append.mpr (.inl (List.mem_map.mpr ⟨entry, member, unchanged⟩))

section Path

def parentPath : List Bytes := [ascii "PATH=/usr/bin"]

def overridePath (name : Bytes) : Overrides := insertAll ∅ [(name, ascii "/bin")]

theorem parentEnvironment_parentPath : ParentEnvironment fold parentPath where
  isEntry := by
    intro entry member
    rw [List.mem_singleton.mp member]
    exact ⟨⟨ascii "PATH", ascii "/usr/bin", by decide, by decide, by decide⟩, by decide⟩
  distinct := List.nodup_singleton _

theorem toList_overridePath (name : Bytes) :
    (overridePath name).toList = [(name, ascii "/bin")] :=
  toList_insertAll (List.pairwise_singleton _ _)

theorem validOverrides_overridePath {name : Bytes} (valid : IsName name) :
    ValidOverrides fold (overridePath name) where
  valid := by simpa [toList_overridePath] using valid
  distinct := by simp [toList_overridePath]

theorem buildEnvironmentBlock_overlaid_iff_path :
    Overlaid toLower parentPath (overridePath (ascii "PATH"))
      (entriesFrom Byte.nul [] (buildEnvironmentBlock
        (some (terminated Byte.nul parentPath ++ [Byte.nul])) (overridePath (ascii "PATH")))) := by
  apply (buildEnvironmentBlock_overlaid_iff parentEnvironment_parentPath
    (validOverrides_overridePath ⟨by decide, by decide, by decide⟩)).mpr
  unfold NamesAgree
  rw [toList_overridePath]
  decide

/-- The entry of the parent and the override are both in the block. -/
theorem path_not_overlaid :
    ¬ ∀ (parent : List Bytes) (overrides : Overrides), ParentEnvironment toLower parent →
      ValidOverrides toLower overrides →
        Overlaid toLower parent overrides (entriesFrom Byte.nul [] (buildEnvironmentBlock
          (some (terminated Byte.nul parent ++ [Byte.nul])) overrides)) := by
  intro overlaid
  have environment : ParentEnvironment toLower parentPath := parentEnvironment_parentPath
  have names : ValidOverrides toLower (overridePath (ascii "path")) :=
    validOverrides_overridePath ⟨by decide, by decide, by decide⟩
  have distinct := (overlaid _ _ environment names).distinct
  rw [entriesFrom_buildEnvironmentBlock environment names
    (by rw [toList_overridePath]; decide), distinct_iff_namesAgree environment names] at distinct
  unfold NamesAgree at distinct
  rw [toList_overridePath] at distinct
  revert distinct
  decide

end Path

end Laws

end ChaosLab

import ChaosLab.Safety
import ChaosLab.TextProperties
import ChaosLab.Foundation.Paths

/-! Where an allowed path leads. The guard compares texts, and a path may begin
with the text of the root and still lead out of it. -/

set_option autoImplicit false

namespace ChaosLab

open Foundation

section Resolution

def isSeparator (byte : UInt8) : Bool := byte = Byte.slash ∨ byte = Byte.backslash

def dotComponent : Bytes := [Byte.dot]

def dotDotComponent : Bytes := [Byte.dot, Byte.dot]

def pathComponents (path : Bytes) : List Bytes := path.splitOnP isSeparator

/-- What a component does. Separators in a row leave empty components, which do nothing. -/
def componentStep (component : Bytes) : PathStep Bytes :=
  if component = [] ∨ component = dotComponent then .stay
  else if component = dotDotComponent then .up
  else .down component

def pathPlace (path : Bytes) : Place Bytes := walk ((pathComponents path).map componentStep)

def isAbsolute (path : Bytes) : Bool := path.head?.any isSeparator

/-- The components of a path with `.` and `..` resolved lexically. There is
nothing above the top of an absolute path. -/
def resolvePath (path : Bytes) : List Bytes :=
  if isAbsolute path then (pathPlace path).names
  else List.replicate (pathPlace path).ups dotDotComponent ++ (pathPlace path).names

theorem pathPlace_of_notMem {text : Bytes} (plain : ∀ byte ∈ text, isSeparator byte = false) :
    pathPlace text = walk [componentStep text] := by
  rw [pathPlace, pathComponents, List.splitOnP_eq_singleton plain, List.map_singleton]

theorem pathPlace_nil : pathPlace [] = {} := rfl

theorem pathPlace_append_cons (before : Bytes) {byte : UInt8} (separator : isSeparator byte = true)
    (after : Bytes) :
    pathPlace (before ++ byte :: after) = (pathPlace before).follow (pathPlace after) := by
  rw [pathPlace, pathComponents, List.splitOnP_append_cons _ _ separator, List.map_append,
    walk_append]
  rfl

theorem pathPlace_cons {byte : UInt8} (separator : isSeparator byte = true) (after : Bytes) :
    pathPlace (byte :: after) = pathPlace after := by
  have whole := pathPlace_append_cons [] separator after
  rwa [pathPlace_nil, Place.start_follow] at whole

/-- A path that names a file or directory without leaving its parent. -/
theorem pathPlace_name {name : Bytes} (plain : ∀ byte ∈ name, isSeparator byte = false)
    (proper : name ≠ [] ∧ name ≠ dotComponent ∧ name ≠ dotDotComponent) :
    pathPlace name = ⟨0, [name]⟩ := by
  rw [pathPlace_of_notMem plain, componentStep, if_neg (by simp [proper.1, proper.2.1]),
    if_neg proper.2.2]
  rfl

end Resolution

section Cuts

/-- A text is what comes up to its last separator, and a component, which is
only empty where the text ends in a separator. -/
theorem exists_last_component (text : Bytes) :
    ∃ (stem last : Bytes) (front : List Bytes), text = stem ++ last ∧
      (∀ byte ∈ last, isSeparator byte = false) ∧
      (∀ name, pathComponents (stem ++ name) = front ++ pathComponents name) ∧
      (last = [] → text = [] ∨ text.getLast?.any isSeparator = true) := by
  induction text using List.reverseRecOn with
  | nil => exact ⟨[], [], [], rfl, by simp, fun name => rfl, fun _ => .inl rfl⟩
  | append_singleton text byte ih =>
      by_cases separator : isSeparator byte = true
      · refine ⟨text ++ [byte], [], pathComponents text, by simp, by simp, fun name => ?_, ?_⟩
        · rw [List.append_assoc]
          exact List.splitOnP_append_cons text name separator
        · simp [separator]
      · obtain ⟨stem, last, front, rfl, plain, cut, _⟩ := ih
        refine ⟨stem, last ++ [byte], front, List.append_assoc _ _ _, ?_, cut, by simp⟩
        intro other member
        rcases List.mem_append.mp member with earlier | same
        · exact plain other earlier
        · rw [List.mem_singleton.mp same]
          simpa using separator

/-- A text is a component, and what comes from its first separator on. -/
theorem pathPlace_append_dropWhile (before text : Bytes) :
    pathPlace (before ++ text) =
      (pathPlace (before ++ text.takeWhile fun byte => !isSeparator byte)).follow
        (pathPlace (text.dropWhile fun byte => !isSeparator byte)) := by
  have whole := List.takeWhile_append_dropWhile (p := fun byte => !isSeparator byte) (l := text)
  conv_lhs => rw [← whole]
  cases beyond : text.dropWhile fun byte => !isSeparator byte with
  | nil => rw [pathPlace_nil, Place.follow_start, List.append_nil]
  | cons byte after =>
      have separator : isSeparator byte = true := by
        have nonempty : (text.dropWhile fun byte => !isSeparator byte) ≠ [] := by simp [beyond]
        have head := List.head_dropWhile_not _ nonempty
        simpa [beyond] using head
      rw [← List.append_assoc, pathPlace_append_cons _ separator, pathPlace_cons separator]

end Cuts

section Roots

/-- No component of the root is `.` or `..`. -/
def Undotted (root : Bytes) : Prop :=
  ∀ component ∈ pathComponents root, component ≠ dotComponent ∧ component ≠ dotDotComponent

theorem walk_undotted {components : List Bytes}
    (undotted : ∀ each ∈ components, each ≠ dotComponent ∧ each ≠ dotDotComponent) :
    walk (components.map componentStep) = ⟨0, components.filter (· ≠ [])⟩ := by
  induction components using List.reverseRecOn with
  | nil => rfl
  | append_singleton components last ih =>
      have before := ih fun each member => undotted each (List.mem_append_left _ member)
      obtain ⟨noDot, noDotDot⟩ := undotted last (List.mem_append_right _ (.head _))
      rw [List.map_append, List.map_singleton, walk_append, before, List.filter_append]
      by_cases empty : last = []
      · have stays : walk [componentStep last] = ({} : Place Bytes) := by
          rw [empty]
          rfl
        rw [stays, Place.follow_start]
        simp [empty]
      · have down : walk [componentStep last] = (⟨0, [last]⟩ : Place Bytes) := by
          rw [componentStep, if_neg (by simp [empty, noDot]), if_neg noDotDot]
          rfl
        simp [down, empty, Place.follow]

theorem pathPlace_undotted {root : Bytes} (undotted : Undotted root) :
    pathPlace root = ⟨0, (pathComponents root).filter (· ≠ [])⟩ :=
  walk_undotted undotted

theorem resolvePath_undotted {root : Bytes} (undotted : Undotted root) :
    resolvePath root = (pathPlace root).names := by
  rw [resolvePath, pathPlace_undotted undotted]
  simp

theorem dotDot_notMem_resolvePath {root : Bytes} (undotted : Undotted root) :
    dotDotComponent ∉ resolvePath root := by
  rw [resolvePath_undotted undotted, pathPlace_undotted undotted]
  intro member
  exact (undotted _ (List.mem_filter.mp member).1).2 rfl

theorem resolvePath_ne_nil {root : Bytes} (undotted : Undotted root) (nonempty : root ≠ [])
    (relative : isAbsolute root = false) : resolvePath root ≠ [] := by
  obtain ⟨first, others, rfl⟩ := List.exists_cons_of_ne_nil nonempty
  obtain ⟨component, components, cut⟩ :=
    List.exists_cons_of_ne_nil (List.splitOnP_ne_nil isSeparator others)
  have plain : isSeparator first = false := by simpa [isAbsolute] using relative
  rw [resolvePath_undotted undotted, pathPlace_undotted undotted, pathComponents,
    List.splitOnP_cons_eq_if_modifyHead, cut]
  simp [plain]

theorem prefix_replicate_append_iff {names below : List Bytes} {mark : Bytes}
    (nonempty : names ≠ []) (absent : mark ∉ names) (ups : Nat) :
    names <+: List.replicate ups mark ++ below ↔ ups = 0 ∧ names <+: below := by
  cases ups with
  | zero => simp
  | succ ups =>
      obtain ⟨first, others, rfl⟩ := List.exists_cons_of_ne_nil nonempty
      have apart : first ≠ mark := fun same => absent (same ▸ .head _)
      simp [List.replicate_succ, apart]

end Roots

section Guard

/-- What follows the root only lengthens its last component. -/
def Lengthens (root rest : Bytes) : Prop :=
  root.getLast?.any isSeparator = false ∧ rest.head?.any (fun byte => !isSeparator byte) = true

instance (root rest : Bytes) : Decidable (Lengthens root rest) :=
  inferInstanceAs (Decidable (_ ∧ _))

/-- Where the rest of a path leads, seen from the component that the root ends in. -/
def placeBeyond (root rest : Bytes) : Place Bytes :=
  if Lengthens root rest then pathPlace (rest.dropWhile fun byte => !isSeparator byte)
  else pathPlace rest

/-- What follows the root in a path leads back into the root: from beside it
one has to go up, from the start of a relative path one cannot, and what was
gone up has to be come down again. -/
structure LeadsBack (root rest : Bytes) : Prop where
  leaves : Lengthens root rest → 1 ≤ (placeBeyond root rest).ups
  start : isAbsolute root = true ∨ (placeBeyond root rest).ups ≤ (resolvePath root).length
  returns : (resolvePath root).drop ((resolvePath root).length - (placeBeyond root rest).ups) <+:
    (placeBeyond root rest).names

theorem isAbsolute_append {root : Bytes} (nonempty : root ≠ []) (rest : Bytes) :
    isAbsolute (root ++ rest) = isAbsolute root := by
  obtain ⟨first, others, rfl⟩ := List.exists_cons_of_ne_nil nonempty
  rfl

variable {root rest : Bytes}

theorem pathPlace_append (apart : ¬ Lengthens root rest) :
    pathPlace (root ++ rest) = (pathPlace root).follow (pathPlace rest) := by
  cases rest with
  | nil => rw [List.append_nil, pathPlace_nil, Place.follow_start]
  | cons byte after =>
      by_cases separator : isSeparator byte = true
      · rw [pathPlace_append_cons root separator, pathPlace_cons separator]
      · have ends : root.getLast?.any isSeparator = true := by
          simpa [Lengthens, separator] using apart
        cases root using List.reverseRecOn with
        | nil => simp at ends
        | append_singleton front last =>
            have closing : isSeparator last = true := by simpa using ends
            have whole := pathPlace_append_cons front closing []
            rw [pathPlace_nil, Place.follow_start] at whole
            rw [List.append_assoc, whole]
            exact pathPlace_append_cons front closing _

/-- The last component of a path may not become `.` or `..` by being lengthened. -/
theorem proper_append {last added : Bytes} (proper : last ≠ [] ∧ last ≠ dotComponent)
    (longer : added ≠ []) :
    last ++ added ≠ [] ∧ last ++ added ≠ dotComponent ∧ last ++ added ≠ dotDotComponent := by
  obtain ⟨first, others, rfl⟩ := List.exists_cons_of_ne_nil proper.1
  obtain ⟨next, later, rfl⟩ := List.exists_cons_of_ne_nil longer
  refine ⟨by simp, by simp [dotComponent], ?_⟩
  intro same
  cases others with
  | nil =>
      obtain ⟨rfl, -⟩ := List.cons.inj same
      exact proper.2 rfl
  | cons second others => simp [dotDotComponent] at same

/-- Where a path leads that lengthens the last component of the root. -/
theorem exists_sibling (undotted : Undotted root) (nonempty : root ≠ [])
    (lengthens : Lengthens root rest) :
    ∃ (front : List Bytes) (last other : Bytes), last ≠ other ∧
      pathPlace root = ⟨0, front ++ [last]⟩ ∧
      pathPlace (root ++ rest) = (⟨0, front ++ [other]⟩ : Place Bytes).follow
        (pathPlace (rest.dropWhile fun byte => !isSeparator byte)) := by
  obtain ⟨stem, last, front, whole, plain, cut, empty⟩ := exists_last_component root
  have components : pathComponents root = front ++ [last] := by
    rw [whole, cut, pathComponents, List.splitOnP_eq_singleton plain]
  have lastNonempty : last ≠ [] := by
    intro none
    rcases empty none with absent | ends
    · exact nonempty absent
    · rw [lengthens.1] at ends
      cases ends
  have lastProper := undotted last (by simp [components])
  have longer : (rest.takeWhile fun byte => !isSeparator byte) ≠ [] := by
    have head := lengthens.2
    cases rest with
    | nil => simp at head
    | cons byte after =>
        have plainHead : isSeparator byte = false := by simpa using head
        simp [plainHead]
  have led : ∀ name, (∀ byte ∈ name, isSeparator byte = false) →
      name ≠ [] ∧ name ≠ dotComponent ∧ name ≠ dotDotComponent →
      pathPlace (stem ++ name) = ⟨0, front.filter (· ≠ []) ++ [name]⟩ := by
    intro name plainName proper
    have frontUndotted : ∀ each ∈ front, each ≠ dotComponent ∧ each ≠ dotDotComponent :=
      fun each member => undotted each (by simp [components, member])
    have down : walk ((pathComponents name).map componentStep) = (⟨0, [name]⟩ : Place Bytes) :=
      pathPlace_name plainName proper
    rw [pathPlace, cut, List.map_append, walk_append, walk_undotted frontUndotted, down]
    simp [Place.follow]
  refine ⟨front.filter (· ≠ []), last, last ++ rest.takeWhile fun byte => !isSeparator byte,
    ?_, ?_, ?_⟩
  · intro same
    exact longer (List.self_eq_append_right.mp same)
  · conv_lhs => rw [whole]
    exact led last plain ⟨lastNonempty, lastProper⟩
  · rw [pathPlace_append_dropWhile, whole, List.append_assoc, led]
    · intro byte member
      rcases List.mem_append.mp member with inLast | inRest
      · exact plain byte inLast
      · simpa using List.mem_takeWhile_imp inRest
    · exact proper_append ⟨lastNonempty, lastProper.1⟩ longer

theorem prefix_names_iff (undotted : Undotted root) (nonempty : root ≠ []) (rest : Bytes) :
    resolvePath root <+: (pathPlace (root ++ rest)).names ↔
      (Lengthens root rest → 1 ≤ (placeBeyond root rest).ups) ∧
      (resolvePath root).drop ((resolvePath root).length - (placeBeyond root rest).ups) <+:
        (placeBeyond root rest).names := by
  rw [resolvePath_undotted undotted]
  by_cases lengthens : Lengthens root rest
  · obtain ⟨front, last, other, apart, ofRoot, ofPath⟩ := exists_sibling undotted nonempty lengthens
    rw [ofRoot, ofPath, placeBeyond, if_pos lengthens]
    simpa [lengthens] using Place.prefix_follow_sibling_iff apart _
  · rw [pathPlace_append lengthens, placeBeyond, if_neg lengthens]
    simpa [lengthens] using Place.prefix_follow_iff _ _

theorem ups_pathPlace_append (undotted : Undotted root) (nonempty : root ≠ []) (rest : Bytes) :
    (pathPlace (root ++ rest)).ups =
      (placeBeyond root rest).ups - (resolvePath root).length := by
  rw [resolvePath_undotted undotted]
  by_cases lengthens : Lengthens root rest
  · obtain ⟨front, last, other, _, ofRoot, ofPath⟩ := exists_sibling undotted nonempty lengthens
    rw [ofRoot, ofPath, placeBeyond, if_pos lengthens]
    simp [Place.follow]
  · have start : (pathPlace root).ups = 0 := by rw [pathPlace_undotted undotted]
    rw [pathPlace_append lengthens, placeBeyond, if_neg lengthens]
    simp [Place.follow, start]

theorem prefix_resolvePath_iff (undotted : Undotted root) (nonempty : root ≠ []) :
    resolvePath root <+: resolvePath (root ++ rest) ↔ LeadsBack root rest := by
  have below := prefix_names_iff undotted nonempty rest
  have upward := ups_pathPlace_append undotted nonempty rest
  have within : resolvePath root <+: resolvePath (root ++ rest) ↔
      (isAbsolute root = true ∨ (placeBeyond root rest).ups ≤ (resolvePath root).length) ∧
        resolvePath root <+: (pathPlace (root ++ rest)).names := by
    unfold resolvePath at upward ⊢
    rw [isAbsolute_append nonempty]
    by_cases absolute : isAbsolute root = true
    · simp [absolute]
    · have relative : isAbsolute root = false := by simpa using absolute
      have some := resolvePath_ne_nil undotted nonempty relative
      have absent := dotDot_notMem_resolvePath undotted
      unfold resolvePath at some absent
      simp only [relative, Bool.false_eq_true, ↓reduceIte] at some absent upward ⊢
      rw [prefix_replicate_append_iff some absent, upward, Nat.sub_eq_zero_iff_le]
      simp
  rw [within, below]
  constructor
  · rintro ⟨start, leaves, returns⟩
    exact ⟨leaves, start, returns⟩
  · rintro ⟨leaves, start, returns⟩
    exact ⟨start, leaves, returns⟩

theorem code_allowPath_eq_ok_iff {safety : SafetyEnvelope} (stated : safety.env.allowedTempRoot ≠ [])
    (path : Bytes) :
    (safety.allowPath path).code = .ok ↔ ∃ rest, path = safety.env.allowedTempRoot ++ rest := by
  rw [SafetyEnvelope.allowPath, if_neg stated]
  by_cases begins : startsWith path safety.env.allowedTempRoot = true
  · have taken : path.take safety.env.allowedTempRoot.length = safety.env.allowedTempRoot :=
      (of_decide_eq_true begins).2
    rw [if_pos begins]
    refine ⟨fun _ => ⟨path.drop safety.env.allowedTempRoot.length, ?_⟩, fun _ => rfl⟩
    conv_lhs => rw [← List.take_append_drop safety.env.allowedTempRoot.length path]
    rw [taken]
  · rw [if_neg begins]
    refine ⟨fun accepted => by simp [SafetyEnvelope.denied] at accepted, ?_⟩
    rintro ⟨rest, rfl⟩
    simp [startsWith] at begins

/-- An allowed path stays under the root exactly if what follows the root leads
back into it. -/
theorem allowPath_confines_iff (safety : SafetyEnvelope)
    (stated : safety.env.allowedTempRoot ≠ []) (undotted : Undotted safety.env.allowedTempRoot)
    (path : Bytes) :
    ((safety.allowPath path).code = .ok →
        resolvePath safety.env.allowedTempRoot <+: resolvePath path) ↔
      ∀ rest, path = safety.env.allowedTempRoot ++ rest →
        LeadsBack safety.env.allowedTempRoot rest := by
  rw [code_allowPath_eq_ok_iff stated]
  constructor
  · rintro confined rest rfl
    exact (prefix_resolvePath_iff undotted stated).mp (confined ⟨rest, rfl⟩)
  · rintro leads ⟨rest, rfl⟩
    exact (prefix_resolvePath_iff undotted stated).mpr (leads rest rfl)

theorem allowPath_confines_iff_tmp :
    ((({ env := { allowedTempRoot := ascii "/tmp/a" } } : SafetyEnvelope).allowPath
        (ascii "/tmp/a/b")).code = .ok →
      resolvePath (ascii "/tmp/a") <+: resolvePath (ascii "/tmp/a/b")) ↔
      ∀ rest, ascii "/tmp/a/b" = ascii "/tmp/a" ++ rest → LeadsBack (ascii "/tmp/a") rest :=
  allowPath_confines_iff { env := { allowedTempRoot := ascii "/tmp/a" } } (by decide)
    (by unfold Undotted; decide) (ascii "/tmp/a/b")

/-- A directory beside the root whose name is longer, and the parent of the root. -/
theorem allowPath_leaves_root :
    Undotted (ascii "/tmp/a") ∧
    (({ env := { allowedTempRoot := ascii "/tmp/a" } } : SafetyEnvelope).allowPath
      (ascii "/tmp/ab")).code = .ok ∧
    ¬ resolvePath (ascii "/tmp/a") <+: resolvePath (ascii "/tmp/ab") ∧
    (({ env := { allowedTempRoot := ascii "/tmp/a" } } : SafetyEnvelope).allowPath
      (ascii "/tmp/a/../b")).code = .ok ∧
    ¬ resolvePath (ascii "/tmp/a") <+: resolvePath (ascii "/tmp/a/../b") := by
  unfold Undotted
  decide

end Guard

end ChaosLab

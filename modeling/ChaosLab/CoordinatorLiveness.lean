import ChaosLab.CoordinatorLedger

/-! Worker liveness. `workers` and `fd_to_worker` are updated together when a
worker registers, but `fd_to_worker` keeps one id for each connection and is not
cleared when a worker moves to another one; what a closing connection marks dead
is read from it. -/

set_option autoImplicit false

namespace ChaosLab

namespace Coordinator

open Foundation

def accepts (history : List Event) : List Int :=
  history.filterMap fun event =>
    match event.action with
    | .accept fd => some fd
    | _ => none

def lastRegistration (history : List Event) (id : UInt64) : Option Int :=
  ((history.filterMap fun event => registration? event.action).filter (·.1 = id)).getLast?.map
    (·.2)

/-- A worker is alive exactly when the connection of its latest registration is
open. -/
def Accurate (history : List Event) (system : System) : Prop :=
  ∀ id fd, lastRegistration history id = some fd →
    ∃ worker, system.coord.workers[id]? = some worker ∧
      (worker.alive = true ↔ fd ∈ system.threads)

/-- A closing connection is the one of every worker whose latest registration
came over it, and the worker found for it has not moved to another connection
while alive. -/
def CloseConsistent (event : Event) : Prop :=
  ∀ fd, event.action = .disconnect fd →
    ∀ id worker, event.before.coord.workers[id]? = some worker →
      (worker.fd = fd → event.before.coord.fdToWorker[fd]? = some id) ∧
      (event.before.coord.fdToWorker[fd]? = some id → worker.fd = fd ∨ worker.alive = false)

/-- `Accurate`, read from the state: a worker record keeps the connection of its
latest registration. -/
def StateAccurate (system : System) : Prop :=
  ∀ (id : UInt64) (worker : Worker), system.coord.workers[id]? = some worker →
    (worker.alive = true ↔ worker.fd ∈ system.threads)

section Close

theorem workers_closeConnection (fd : Int) (s : CoordState) (id : UInt64) :
    (closeConnection fd s).1.workers[id]? =
      if s.fdToWorker[fd]? = some id then
        s.workers[id]?.map fun worker => { worker with alive := false }
      else s.workers[id]? := by
  unfold closeConnection
  cases found : s.fdToWorker[fd]? with
  | none => simp
  | some owner =>
      cases known : s.workers[owner]? with
      | none =>
          by_cases same : owner = id
          · subst same
            simp [known]
          · simp [known, same]
      | some worker =>
          by_cases same : owner = id
          · subst same
            simp [known]
          · simp [known, getElem?_insert_ite, same]

theorem stateAccurate_close_iff {system : System} {fd : Int}
    (accurate : StateAccurate system) (opened : fd ∈ system.threads) :
    StateAccurate { coord := (closeConnection fd system.coord).1,
                    threads := system.threads.erase fd } ↔
      ∀ id worker, system.coord.workers[id]? = some worker →
        (worker.fd = fd → system.coord.fdToWorker[fd]? = some id) ∧
        (system.coord.fdToWorker[fd]? = some id → worker.fd = fd ∨ worker.alive = false) := by
  simp only [StateAccurate, workers_closeConnection, Std.ExtTreeMap.mem_erase, ne_eq,
    Std.compare_eq_iff_eq]
  refine forall_congr' fun id => ?_
  cases known : system.coord.workers[id]? with
  | none => simp
  | some worker =>
      have live := accurate id worker known
      by_cases owner : system.coord.fdToWorker[fd]? = some id
      · simp only [owner, if_true, Option.map_some, Option.some.injEq, forall_eq', implies_true,
          true_and, forall_const, Bool.false_eq_true, false_iff, ← Bool.not_eq_true, live]
        tauto
      · simp only [owner, if_false, Option.some.injEq, forall_eq', live, imp_false, false_imp_iff,
          and_true]
        constructor
        · intro kept here
          exact (kept.mp (here ▸ opened)).1 here.symm
        · intro elsewhere
          exact ⟨fun opened => ⟨fun here => elsewhere here.symm, opened⟩, fun kept => kept.2⟩

end Close

theorem mem_of_getElem? {system : System} {fd : Int} {phase : ThreadPhase}
    (ready : system.threads[fd]? = some phase) : fd ∈ system.threads :=
  Std.ExtTreeMap.mem_iff_isSome_getElem?.mpr (by simp [ready])

theorem stateAccurate_of_phase {system : System} {coord : CoordState} {fd : Int}
    {old new : ThreadPhase} (accurate : StateAccurate system)
    (ready : system.threads[fd]? = some old) (same : coord.workers = system.coord.workers) :
    StateAccurate { coord := coord, threads := system.threads.insert fd new } := by
  intro id worker known
  rw [same] at known
  rw [accurate id worker known, Std.ExtTreeMap.mem_insert, Std.compare_eq_iff_eq]
  constructor
  · exact .inr
  · intro member
    cases member with
    | inl same => exact same ▸ mem_of_getElem? ready
    | inr inside => exact inside

theorem workers_completeLocked (s : CoordState) (request : CompleteRequest) (fd : Int) :
    (completeLocked s request fd).1.workers = s.workers := by
  simp only [completeLocked, duplicateReject]
  split_ifs <;> rfl

inductive Membership (before : System) : Action → System → Prop where
  | accept {fd : Int} (absent : fd ∉ before.threads) :
      Membership before (.accept fd)
        { before with threads := before.threads.insert fd .receiving }
  | register {action : Action} {fd : Int} {name : Bytes} {id boot : UInt64}
      (ready : before.threads[fd]? = some .receiving)
      (registers : registration? action = some (id, fd)) (running : ∀ fd, action ≠ .accept fd)
      (staying : ∀ fd, action ≠ .disconnect fd) :
      Membership before action
        { coord := registerLocked before.coord name id boot fd,
          threads := before.threads.insert fd .receiving }
  | phase {action : Action} {fd : Int} {coord : CoordState} {old new : ThreadPhase}
      (ready : before.threads[fd]? = some old) (same : coord.workers = before.coord.workers)
      (silent : registration? action = none) (running : ∀ fd, action ≠ .accept fd)
      (staying : ∀ fd, action ≠ .disconnect fd) :
      Membership before action { coord := coord, threads := before.threads.insert fd new }
  | disconnect {fd : Int} (ready : before.threads[fd]? = some .receiving) :
      Membership before (.disconnect fd)
        { coord := (closeConnection fd before.coord).1, threads := before.threads.erase fd }

theorem membership_of_step {before after : System} {action : Action} {outputs : List Effect}
    (stepped : machine.step before action = some (after, outputs)) :
    Membership before action after := by
  cases stepped_of_step stepped with
  | accept absent => exact .accept absent
  | register ready named read =>
      exact .register ready (by simp [registration?, named, read]) (by simp) (by simp)
  | submit ready named =>
      exact .phase ready rfl (by simp [registration?, named]) (by simp) (by simp)
  | complete ready named =>
      exact .phase ready (workers_completeLocked ..) (by simp [registration?, named]) (by simp)
        (by simp)
  | inert ready unchanging => exact .phase ready rfl unchanging.register (by simp) (by simp)
  | shutdown ready named =>
      exact .phase ready rfl (by simp [registration?, named]) (by simp) (by simp)
  | sendDispatch ready => exact .phase ready rfl rfl (by simp) (by simp)
  | sendResponse ready => exact .phase ready rfl rfl (by simp) (by simp)
  | disconnect ready => exact .disconnect ready

structure Registered (history : List Event) (system : System) : Prop where
  last : ∀ id, lastRegistration history id = system.coord.workers[id]?.map (·.fd)
  opened : ∀ fd, fd ∈ system.threads → fd ∈ accepts history
  accepted : ∀ (id : UInt64) (worker : Worker),
    system.coord.workers[id]? = some worker → worker.fd ∈ accepts history

theorem accepts_snoc (history : List Event) (event : Event) :
    accepts (history ++ [event]) = accepts history ++
      (match event.action with
        | .accept fd => [fd]
        | _ => []) := by
  cases action : event.action <;> simp [accepts, action]

theorem lastRegistration_of_silent {history : List Event} {event : Event}
    (silent : registration? event.action = none) (id : UInt64) :
    lastRegistration (history ++ [event]) id = lastRegistration history id := by
  simp [lastRegistration, silent]

theorem lastRegistration_of_registers {history : List Event} {event : Event} {id : UInt64}
    {fd : Int} (registers : registration? event.action = some (id, fd)) (other : UInt64) :
    lastRegistration (history ++ [event]) other =
      if id = other then some fd else lastRegistration history other := by
  by_cases same : id = other
  · simp [lastRegistration, registers, same]
  · simp [lastRegistration, registers, same]

theorem opened_insert {history later : List Event} {system : System}
    (registered : Registered history system)
    (kept : ∀ fd ∈ accepts history, fd ∈ accepts later) {fd : Int} {phase : ThreadPhase}
    (here : fd ∈ accepts later) :
    ∀ other ∈ system.threads.insert fd phase, other ∈ accepts later := by
  intro other opened
  rw [Std.ExtTreeMap.mem_insert, Std.compare_eq_iff_eq] at opened
  rcases opened with rfl | opened
  · exact here
  · exact kept _ (registered.opened other opened)

theorem Registered.step {history : List Event} {before after : System} {action : Action}
    {outputs : List Effect} (registered : Registered history before)
    (stepped : machine.step before action = some (after, outputs)) :
    Registered (history ++ [⟨before, action, outputs, after⟩]) after := by
  have kept : ∀ fd ∈ accepts history,
      fd ∈ accepts (history ++ [⟨before, action, outputs, after⟩]) := by
    intro fd member
    rw [accepts_snoc]
    exact List.mem_append_left _ member
  cases membership_of_step stepped with
  | @accept fd absent =>
      refine ⟨fun id => ?_, opened_insert registered kept (by simp [accepts_snoc]),
        fun id worker known => kept _ (registered.accepted id worker known)⟩
      rw [lastRegistration_of_silent rfl, registered.last]
  | @register _ fd name id boot ready registers running staying =>
      have here := registered.opened fd (mem_of_getElem? ready)
      refine ⟨fun other => ?_, opened_insert registered kept (kept _ here),
        fun other worker known => ?_⟩
      · rw [lastRegistration_of_registers registers, registered.last, registerLocked,
          getElem?_insert_ite]
        split <;> rfl
      · rw [registerLocked, getElem?_insert_ite] at known
        split at known
        · cases known
          exact kept _ here
        · exact kept _ (registered.accepted other worker known)
  | @phase _ fd coord old new ready same silent running staying =>
      have here := registered.opened fd (mem_of_getElem? ready)
      refine ⟨fun id => ?_, opened_insert registered kept (kept _ here),
        fun id worker known => ?_⟩
      · rw [lastRegistration_of_silent silent, registered.last, same]
      · rw [same] at known
        exact kept _ (registered.accepted id worker known)
  | @disconnect fd ready =>
      refine ⟨fun id => ?_, fun other opened => ?_, fun id worker known => ?_⟩
      · rw [lastRegistration_of_silent rfl, registered.last, workers_closeConnection]
        split
        · cases before.coord.workers[id]? <;> rfl
        · rfl
      · exact kept _ (registered.opened other (Std.ExtTreeMap.mem_erase.mp opened).2)
      · rw [workers_closeConnection] at known
        split at known
        · obtain ⟨old, found, rfl⟩ := Option.map_eq_some_iff.mp known
          exact kept _ (registered.accepted id old found)
        · exact kept _ (registered.accepted id worker known)

theorem accurate_iff {history : List Event} {system : System}
    (registered : Registered history system) :
    Accurate history system ↔ StateAccurate system := by
  constructor
  · intro accurate id worker known
    have last : lastRegistration history id = some worker.fd := by
      rw [registered.last, known, Option.map_some]
    obtain ⟨same, found, live⟩ := accurate id worker.fd last
    obtain rfl := Option.some.inj (known.symm.trans found)
    exact live
  · intro accurate id fd last
    rw [registered.last] at last
    obtain ⟨worker, known, rfl⟩ := Option.map_eq_some_iff.mp last
    exact ⟨worker, known, accurate id worker known⟩

theorem stateAccurate_step_iff {history : List Event} {before after : System}
    {action : Action} {outputs : List Effect} (registered : Registered history before)
    (fresh : ∀ fd, action = .accept fd → fd ∉ accepts history)
    (accurate : StateAccurate before)
    (stepped : machine.step before action = some (after, outputs)) :
    StateAccurate after ↔ CloseConsistent ⟨before, action, outputs, after⟩ := by
  cases membership_of_step stepped with
  | @accept fd absent =>
      refine iff_of_true (fun id worker known => ?_) (by simp [CloseConsistent])
      have other : fd ≠ worker.fd := fun same =>
        fresh fd rfl (same ▸ registered.accepted id worker known)
      simp [accurate id worker known, other]
  | @register _ fd name id boot ready registers running staying =>
      refine iff_of_true (fun other worker known => ?_) (by simp [CloseConsistent, staying])
      rw [registerLocked, getElem?_insert_ite] at known
      split at known
      · cases known
        simp
      · have moved : StateAccurate { coord := before.coord,
                                     threads := before.threads.insert fd .receiving } :=
          stateAccurate_of_phase accurate ready rfl
        exact moved other worker known
  | @phase _ fd coord old new ready same silent running staying =>
      exact iff_of_true (stateAccurate_of_phase accurate ready same)
        (by simp [CloseConsistent, staying])
  | @disconnect fd ready =>
      rw [stateAccurate_close_iff accurate (mem_of_getElem? ready)]
      simp [CloseConsistent]

theorem registered_of_run {coord : CoordState} {history : List Event} {final : System}
    {argv : List Bytes} (booted : parseArgs {} argv = .ok coord)
    (run : Run machine { coord := coord } history final) : Registered history final := by
  induction run with
  | nil =>
      obtain ⟨epoch, stateFile, rfl⟩ := parseArgs_spec booted
      exact ⟨by simp [lastRegistration], by simp, by simp⟩
  | snoc _ stepped ih => exact ih.step stepped

/-- Over connections that are not reused, liveness is accurate after every step
exactly when every closing connection is consistent. -/
theorem liveness_accurate_iff {argv : List Bytes} {history : List Event} {final : System}
    (process : ProcessRun argv history final) (distinct : (accepts history).Nodup) :
    (∀ earlier state, earlier <+: history → ProcessRun argv earlier state →
      Accurate earlier state) ↔
    ∀ event ∈ history, CloseConsistent event := by
  obtain ⟨coord, booted, run⟩ := process
  induction run with
  | nil =>
      refine iff_of_true (fun earlier state before _ => ?_) (by simp)
      obtain rfl := List.prefix_nil.mp before
      simp [Accurate, lastRegistration]
  | @snoc history state next action outputs previous stepped ih =>
      have registered := registered_of_run booted previous
      have whole : ProcessRun argv (history ++ [⟨state, action, outputs, next⟩]) next :=
        ⟨coord, booted, previous.snoc stepped⟩
      rw [accepts_snoc, List.nodup_append] at distinct
      have fresh : ∀ fd, action = .accept fd → fd ∉ accepts history := by
        rintro fd rfl member
        exact distinct.2.2 fd member fd (List.mem_singleton_self fd) rfl
      have earlier := ih distinct.1
      simp only [List.prefix_concat_iff, List.forall_mem_append, List.forall_mem_singleton]
      constructor
      · intro accurate
        have before : StateAccurate state := (accurate_iff registered).mp
          (accurate history state (.inr (List.prefix_refl _)) ⟨coord, booted, previous⟩)
        have after := (accurate_iff (registered.step stepped)).mp
          (accurate _ next (.inl rfl) whole)
        exact ⟨earlier.mp fun earlier state cut => accurate earlier state (.inr cut),
          (stateAccurate_step_iff registered fresh before stepped).mp after⟩
      · intro conditions earlierHistory earlierState cut
        obtain ⟨consistent, closing⟩ := conditions
        have accurate := earlier.mpr consistent
        rcases cut with rfl | cut
        · intro other
          obtain ⟨start, started, run⟩ := other
          obtain rfl := Except.ok.inj (started.symm.trans booted)
          obtain rfl := (previous.snoc stepped).unique run
          have before : StateAccurate state := (accurate_iff registered).mp
            (accurate history state (List.prefix_refl _) ⟨start, booted, previous⟩)
          exact (accurate_iff (registered.step stepped)).mpr
            ((stateAccurate_step_iff registered fresh before stepped).mpr closing)
        · exact accurate earlierHistory earlierState cut

theorem liveness_accurate_close_then_register : ∃ history final,
    ProcessRun [] history final ∧ (accepts history).Nodup ∧
    (∀ event ∈ history, CloseConsistent event) ∧ Accurate history final := by
  obtain ⟨history, final, run, distinct, closed⟩ := machine.exists_run { coord := {} }
    [.accept 4, .frame 4 MsgType.register.code (ascii "w|7|3"), .disconnect 4,
      .accept 5, .frame 5 MsgType.register.code (ascii "w|7|3")]
    (fun history _ => (accepts history).Nodup ∧ ∀ event ∈ history,
      (match event.action with
        | .disconnect fd => decide (event.before.coord.workers =
            (∅ : Std.ExtTreeMap UInt64 Worker).insert 7 ⟨7, 3, ascii "w", fd, true⟩ ∧
              event.before.coord.fdToWorker[fd]? = some 7)
        | _ => true) = true) (by decide +kernel)
  have process : ProcessRun [] history final := ⟨{}, rfl, run⟩
  have consistent : ∀ event ∈ history, CloseConsistent event := by
    intro event member fd closing id worker known
    have found := closed event member
    simp only [closing, decide_eq_true_eq] at found
    rw [found.1, getElem?_insert_ite] at known
    split at known
    · rename_i same
      cases known
      simp [found.2, same]
    · simp at known
  exact ⟨history, final, process, distinct, consistent,
    (liveness_accurate_iff process distinct).mpr consistent history final (List.prefix_refl _)
      process⟩

/-- A worker registers over a new connection before the old one is closed: the
late close marks it dead. -/
theorem dead_after_late_close : ∃ history final, ProcessRun [] history final ∧
    history.map (·.action) = [.accept 4, .frame 4 MsgType.register.code (ascii "w|7|3"),
      .accept 5, .frame 5 MsgType.register.code (ascii "w|7|3"), .disconnect 4] ∧
    (accepts history).Nodup ∧ ¬ Accurate history final := by
  obtain ⟨history, final, run, actions, distinct, last, dead, opened⟩ :=
    machine.exists_run { coord := {} }
      [.accept 4, .frame 4 MsgType.register.code (ascii "w|7|3"),
        .accept 5, .frame 5 MsgType.register.code (ascii "w|7|3"), .disconnect 4]
      (fun history final => history.map (·.action) = [.accept 4,
          .frame 4 MsgType.register.code (ascii "w|7|3"), .accept 5,
          .frame 5 MsgType.register.code (ascii "w|7|3"), .disconnect 4] ∧
        (accepts history).Nodup ∧ lastRegistration history 7 = some 5 ∧
        final.coord.workers[(7 : UInt64)]?.map (·.alive) = some false ∧
        (5 : Int) ∈ final.threads) (by decide +kernel)
  refine ⟨history, final, ⟨{}, rfl, run⟩, actions, distinct, fun accurate => ?_⟩
  obtain ⟨worker, known, live⟩ := accurate 7 5 last
  simp [known, live.mpr opened] at dead

end Coordinator

end ChaosLab

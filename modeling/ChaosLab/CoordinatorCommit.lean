import ChaosLab.CoordinatorAuthority
import ChaosLab.Foundation.WriteOnce

/-! The commit log over whole runs: it is append-only, the first result of a
signature wins, and whether one submit can be committed twice is decided by the
worker field of its completions. -/

set_option autoImplicit false

namespace ChaosLab

namespace Coordinator

open Foundation

structure Ledger (submits : List (Int × Authority)) (acks : List CompleteRequest)
    (s : CoordState) : Prop extends Numbered submits s where
  acknowledgedIssued : ∀ request ∈ acks, request.authority ∈ submits.map (·.2)
  committed : ∀ sig, sig ∈ s.committed ↔ ∃ request ∈ acks, signature request = sig
  size : s.committed.size = acks.length
  boot : submits.length < 2 ^ 64 →
    ∀ request ∈ acks, request.authority = s.authority → request.boot = s.curBoot

theorem ledger_initial (epoch : UInt64) (stateFile : Bytes) :
    Ledger [] [] { epoch := epoch, stateFile := stateFile } where
  toNumbered := numbered_initial epoch stateFile
  acknowledgedIssued := by simp
  committed := by simp
  size := rfl
  boot := by simp

theorem authorityAt_inj {epoch : UInt64} {left right : Nat} (leftSmall : left < 2 ^ 64)
    (rightSmall : right < 2 ^ 64) (same : authorityAt epoch left = authorityAt epoch right) :
    left = right := by
  simp only [authorityAt, Authority.mk.injEq] at same
  exact (ofNat_inj leftSmall rightSmall).mp same.2.1

theorem Ledger.submit {submits : List (Int × Authority)} {acks : List CompleteRequest}
    {s : CoordState} {fd : Int} {target : UInt64} {worker : Worker}
    (ledger : Ledger submits acks s) (live : liveWorker? s target = some worker) :
    Ledger (submits ++ [(fd, (allocate s target worker).authority)]) acks
      (allocate s target worker) where
  toNumbered := (@Progress.submit s fd target worker live).numbered ledger.toNumbered
  acknowledgedIssued := fun request member => by
    rw [List.map_append]
    exact List.mem_append_left _ (ledger.acknowledgedIssued request member)
  committed := ledger.committed
  size := ledger.size
  boot := by
    intro few request member same
    -- The new numbers are larger than those of every completion acknowledged before.
    have numbered := (@Progress.submit s fd target worker live).numbered ledger.toNumbered
    have earlier := ledger.acknowledgedIssued request member
    rw [same, ledger.issued, List.mem_map] at earlier
    obtain ⟨count, inside, old⟩ := earlier
    have bounds := List.mem_range'_1.mp inside
    have new := numbered.current
    simp only [Option.map_some, Option.toList_some, List.length_append, List.length_singleton]
      at new few
    have clash : count = submits.length + 1 :=
      authorityAt_inj (by omega) (by omega) (old.trans new)
    omega

theorem Ledger.commit {submits : List (Int × Authority)} {acks : List CompleteRequest}
    {s : CoordState} {request : CompleteRequest} (ledger : Ledger submits acks s)
    (current : Current s request) (fresh : signature request ∉ s.committed) :
    Ledger submits (acks ++ [request]) (commit s request) where
  toNumbered := { ledger.toNumbered with }
  acknowledgedIssued := by
    simp only [List.mem_append, List.mem_singleton]
    intro other member
    cases member with
    | inl earlier => exact ledger.acknowledgedIssued other earlier
    | inr same => exact same ▸ ledger.toNumbered.mem_of_current current
  committed := by
    intro sig
    simp only [Coordinator.commit, Std.ExtTreeSet.mem_insert, Std.compare_eq_iff_eq,
      ledger.committed sig, List.mem_append, List.mem_singleton]
    constructor
    · intro held
      cases held with
      | inl now => exact ⟨request, .inr rfl, now⟩
      | inr earlier =>
          obtain ⟨other, member, same⟩ := earlier
          exact ⟨other, .inl member, same⟩
    · intro listed
      obtain ⟨other, member, same⟩ := listed
      cases member with
      | inl earlier => exact .inr ⟨other, earlier, same⟩
      | inr now => exact .inl (now ▸ same)
  size := by
    simp [Coordinator.commit, Std.ExtTreeSet.size_insert, fresh, ledger.size]
  boot := by
    simp only [List.mem_append, List.mem_singleton]
    intro few other member same
    cases member with
    | inl earlier => exact ledger.boot few other earlier same
    | inr now => exact now ▸ (current_iff.mp current).2.2

theorem Progress.ledger {before after : CoordState} {submits : List (Int × Authority)}
    {acks : List CompleteRequest} {submit : Option Int} {acknowledged : Option CompleteRequest}
    (progress : Progress before after submit acknowledged)
    (ledger : Ledger submits acks before) :
    Ledger (submits ++ (submit.map fun fd => (fd, after.authority)).toList)
      (acks ++ acknowledged.toList) after := by
  cases progress with
  | submit live => simpa using ledger.submit live
  | commit current fresh => simpa using ledger.commit current fresh
  | keep =>
      simp only [Option.map_none, Option.toList_none, List.append_nil]
      exact { ledger with }

section Process

variable {argv : List Bytes} {history : List Event} {final : System}

theorem ProcessRun.ledger_holds (process : ProcessRun argv history final) :
    Ledger (submissions history) (acknowledged history) final.coord :=
  process.ledger Ledger (fun _ progress ledger => progress.ledger ledger) ledger_initial

theorem countP_acknowledgements {before after : System} {action : Action}
    {outputs : List Effect} (logged : Logged before.coord)
    (stepped : machine.step before action = some (after, outputs)) :
    outputs.countP (Effect.sends .completeAck) =
      (acknowledged? ⟨before, action, outputs, after⟩).toList.length := by
  cases completed : completion? action with
  | none =>
      have silent := not_sends_completeAck (stepped_of_step stepped) completed
      rw [acknowledged?_of_completion_none completed, List.countP_eq_zero.mpr]
      · rfl
      · simpa using silent
  | some request =>
      obtain ⟨fd, rfl⟩ := completion_spec stepped completed
      rcases completeLocked_cases logged request fd with
        ⟨current, fresh, locked⟩ | ⟨-, reason, locked⟩
      · simp [locked, acknowledged?, acceptance, completed, Effect.sends]
      · simp [locked, acknowledged?, rejection, Effect.sends]

theorem ProcessRun.countP_acknowledgements (process : ProcessRun argv history final) :
    (history.flatMap (·.outputs)).countP (Effect.sends .completeAck) =
      (acknowledged history).length := by
  obtain ⟨coord, booted, run⟩ := process
  have logged := logged_of_booted booted
  clear booted
  induction run with
  | nil => rfl
  | snoc previous stepped ih =>
      have step := Coordinator.countP_acknowledgements (logged_of_run previous logged) stepped
      simp [ih, step]

end Process

section AppendOnly

def log (s : CoordState) : Bytes → Option Bytes := fun sig => s.sigResult[sig]?

theorem log_commit (s : CoordState) (request : CompleteRequest) :
    log (commit s request) =
      Function.update (log s) (signature request) (some request.result) := by
  funext sig
  simp only [log, commit, getElem?_insert_ite, Function.update_apply]
  by_cases same : sig = signature request
  · simp [same]
  · simp [same, Ne.symm same]

/-- Every step writes at most one empty cell of the log. -/
theorem Progress.writes {before after : CoordState} {submit : Option Int}
    {acknowledged : Option CompleteRequest}
    (progress : Progress before after submit acknowledged) (logged : Logged before) :
    Relation.ReflGen Write (log before) (log after) := by
  cases progress with
  | submit => exact .refl
  | @commit request current fresh =>
      have empty : log before (signature request) = none :=
        Std.ExtTreeMap.getElem?_eq_none fun stored => fresh ((logged _).mpr stored)
      rw [log_commit]
      exact .single (.write empty request.result)
  | keep => exact .refl

theorem result_kept {start final : System} {history : List Event}
    (run : Run machine start history final) (logged : Logged start.coord) {sig result : Bytes}
    (stored : start.coord.sigResult[sig]? = some result) :
    final.coord.sigResult[sig]? = some result := by
  have writes := run.simulates
    (fun logged stepped => (progress_of_step logged stepped).logged logged)
    (fun logged stepped => (progress_of_step logged stepped).writes logged) logged
  exact first_write_wins writes stored

theorem committed_kept {start final : System} {history : List Event}
    (run : Run machine start history final) (logged : Logged start.coord) {sig : Bytes}
    (committed : sig ∈ start.coord.committed) :
    sig ∈ final.coord.committed ∧
      final.coord.sigResult[sig]? = start.coord.sigResult[sig]? := by
  have stored := Std.ExtTreeMap.getElem?_eq_some_getElem ((logged sig).mp committed)
  have kept := result_kept run logged stored
  refine ⟨(logged_of_run run logged sig).mpr ?_, kept.trans stored.symm⟩
  exact Std.ExtTreeMap.mem_iff_isSome_getElem?.mpr (by simp [kept])

theorem rejected_keeps {before after : System} {fd : Int} {type : UInt32} {payload : Bytes}
    {outputs : List Effect} (logged : Logged before.coord)
    (named : MsgType.ofCode? type = some .complete)
    (stepped : machine.step before (.frame fd type payload) = some (after, outputs))
    {reason : Bytes} (rejected : Effect.send fd .completeRejected reason ∈ outputs) :
    after.coord = before.coord := by
  cases stepped_of_step stepped with
  | register _ other => simp [named] at other
  | submit _ other => simp [named] at other
  | @complete _ _ _ request ready _ read =>
      rcases completeLocked_cases logged request fd with
        ⟨current, fresh, locked⟩ | ⟨-, reason, locked⟩
      · simp [locked, acceptance] at rejected
      · simp [locked]
  | inert => rfl
  | shutdown _ other => simp [named] at other

/-- The commit log is append-only and the first result wins. -/
theorem commit_log_append_only {argv : List Bytes} {history : List Event} {final : System}
    (process : ProcessRun argv history final) :
    (∀ sig, sig ∈ final.coord.sigResult ↔ sig ∈ final.coord.committed) ∧
    (history.flatMap (·.outputs)).countP (Effect.sends .completeAck) =
      final.coord.committed.size ∧
    (∀ later next, Run machine final later next → ∀ sig ∈ final.coord.committed,
      sig ∈ next.coord.committed ∧
        next.coord.sigResult[sig]? = final.coord.sigResult[sig]?) ∧
    ∀ event ∈ history, ∀ fd type payload reason, event.action = .frame fd type payload →
      MsgType.ofCode? type = some .complete →
      Effect.send fd .completeRejected reason ∈ event.outputs →
      event.after.coord = event.before.coord := by
  refine ⟨fun sig => (process.logged sig).symm, ?_, ?_, ?_⟩
  · rw [process.countP_acknowledgements, process.ledger_holds.size]
  · intro later next run sig committed
    exact committed_kept run process.logged committed
  · intro event member fd type payload reason frame named rejected
    obtain ⟨earlier, later, rfl⟩ := List.append_of_mem member
    obtain ⟨coord, booted, run⟩ := process
    obtain ⟨before, stepped, -⟩ := run.at_split
    rw [frame] at stepped
    exact rejected_keeps (logged_of_run before (logged_of_booted booted)) named stepped rejected

theorem commit_log_append_only_conflict : ∃ history final, ProcessRun [] history final ∧
    (history.flatMap (·.outputs)).countP (Effect.sends .completeAck) = 1 ∧
    final.coord.committed.size = 1 := by
  obtain ⟨history, final, run, count⟩ := machine.exists_run { coord := {} }
    [.accept 4, .frame 4 MsgType.register.code (ascii "w|7|3"), .accept 5,
      .frame 5 MsgType.submit.code (ascii "7|a"),
      .frame 4 MsgType.complete.code (ascii "1|1|1|1|7|3|done"),
      .frame 4 MsgType.complete.code (ascii "1|1|1|1|7|3|other")]
    (fun history _ => (history.flatMap (·.outputs)).countP (Effect.sends .completeAck) = 1)
    (by decide +kernel)
  have process : ProcessRun [] history final := ⟨{}, rfl, run⟩
  obtain ⟨-, size, -, -⟩ := commit_log_append_only process
  exact ⟨history, final, process, count, by rw [← size, count]⟩

end AppendOnly

section DoubleCommit

/-- A completion of the current submit names the same worker as the completions
already committed for it. -/
def WorkerConsistent (event : Event) : Prop :=
  ∀ request, completion? event.action = some request → Current event.before.coord request →
    ∀ worker, signature { request with worker := worker } ∈ event.before.coord.committed →
      worker = request.worker

theorem acknowledged?_completion {before after : System} {action : Action}
    {outputs : List Effect} {request : CompleteRequest} (logged : Logged before.coord)
    (stepped : machine.step before action = some (after, outputs))
    (completed : completion? action = some request) :
    acknowledged? ⟨before, action, outputs, after⟩ =
      if Current before.coord request ∧ signature request ∉ before.coord.committed
      then some request else none := by
  obtain ⟨fd, rfl⟩ := completion_spec stepped completed
  rcases completeLocked_cases logged request fd with ⟨current, fresh, locked⟩ | ⟨refused, _, locked⟩
  · simp [acknowledged?, locked, acceptance, Effect.sends, completed, current, fresh]
  · have unacceptable :
        ¬ (Current before.coord request ∧ signature request ∉ before.coord.committed) := by
      tauto
    simp [acknowledged?, locked, rejection, Effect.sends, unacceptable]

variable {submits : List (Int × Authority)} {acks : List CompleteRequest}

theorem nodup_step_iff {before after : System} {action : Action} {outputs : List Effect}
    (logged : Logged before.coord) (ledger : Ledger submits acks before.coord)
    (few : submits.length < 2 ^ 64) (distinct : (acks.map (·.authority)).Nodup)
    (stepped : machine.step before action = some (after, outputs)) :
    ((acks ++ (acknowledged? ⟨before, action, outputs, after⟩).toList).map
      (·.authority)).Nodup ↔ WorkerConsistent ⟨before, action, outputs, after⟩ := by
  cases completed : completion? action with
  | none =>
      simp [acknowledged?_of_completion_none, WorkerConsistent, completed, distinct]
  | some request =>
      rw [acknowledged?_completion logged stepped completed]
      constructor
      · intro nodup other same current worker committed
        obtain rfl := Option.some.inj (completed.symm.trans same)
        obtain ⟨first, firstMember, firstSame⟩ := (ledger.committed _).mp committed
        obtain ⟨firstAuthority, firstWorker, -⟩ := signature_inj firstSame
        by_cases repeated : signature request ∈ before.coord.committed
        · obtain ⟨second, secondMember, secondSame⟩ := (ledger.committed _).mp repeated
          obtain ⟨secondAuthority, secondWorker, -⟩ := signature_inj secondSame
          have equal := List.inj_on_of_nodup_map distinct firstMember secondMember
            (firstAuthority.trans secondAuthority.symm)
          rw [← secondWorker, ← equal]
          exact firstWorker.symm
        · simp only [current, repeated, not_false_eq_true, and_self, if_true,
            Option.toList_some, List.map_append, List.nodup_append] at nodup
          have different := nodup.2.2 _ (List.mem_map_of_mem firstMember) _
            (List.mem_singleton_self _)
          exact absurd firstAuthority different
      · intro consistent
        split
        · rename_i accepted
          obtain ⟨current, fresh⟩ := accepted
          obtain ⟨-, authority, boot⟩ := current_iff.mp current
          simp only [Option.toList_some, List.map_append, List.map_cons, List.map_nil,
            List.nodup_append]
          refine ⟨distinct, List.nodup_singleton _, ?_⟩
          rintro _ member _ single rfl
          obtain rfl := List.mem_singleton.mp single
          obtain ⟨first, firstMember, firstAuthority⟩ := List.mem_map.mp member
          have firstBoot := ledger.boot few first firstMember (firstAuthority.trans authority)
          have firstSame : signature first = signature { request with worker := first.worker } :=
            signature_eq_iff.mpr ⟨firstAuthority, rfl, firstBoot.trans boot.symm⟩
          have sameWorker := consistent request completed current first.worker
            ((ledger.committed _).mpr ⟨first, firstMember, firstSame⟩)
          refine fresh ((ledger.committed _).mpr ⟨first, firstMember, ?_⟩)
          exact signature_eq_iff.mpr ⟨firstAuthority, sameWorker, firstBoot.trans boot.symm⟩
        · simpa using distinct

theorem acknowledged_nodup_iff {argv : List Bytes} {history : List Event} {final : System}
    (process : ProcessRun argv history final) (few : (issued history).length < 2 ^ 64) :
    ((acknowledged history).map (·.authority)).Nodup ↔
      ∀ event ∈ history, WorkerConsistent event := by
  obtain ⟨coord, booted, run⟩ := process
  induction run with
  | nil => simp
  | @snoc history state next action outputs previous stepped ih =>
      have process : ProcessRun argv history state := ⟨coord, booted, previous⟩
      have fewer : (submissions history).length < 2 ^ 64 := by
        rw [length_issued, submissions_append, List.length_append] at few
        omega
      have earlier := ih (by rwa [length_issued])
      simp only [acknowledged_append, acknowledged_singleton, List.forall_mem_append,
        List.forall_mem_singleton]
      by_cases distinct : ((acknowledged history).map (·.authority)).Nodup
      · rw [nodup_step_iff process.logged process.ledger_holds fewer distinct stepped]
        exact (and_iff_right (earlier.mp distinct)).symm
      · have inconsistent : ¬ ∀ event ∈ history, WorkerConsistent event :=
          fun consistent => distinct (earlier.mpr consistent)
        simp only [inconsistent, false_and, iff_false]
        intro nodup
        rw [List.map_append] at nodup
        exact distinct (List.nodup_append.mp nodup).1

/-- Every submit is committed at most once exactly when the completions of the
current submit all name the worker of the one committed first. -/
theorem at_most_one_commit_iff {argv : List Bytes} {history : List Event} {final : System}
    (process : ProcessRun argv history final) (few : (issued history).length < 2 ^ 64) :
    (∀ authority ∈ issued history,
      (acknowledged history).countP (fun request => request.authority = authority) ≤ 1) ↔
    ∀ event ∈ history, WorkerConsistent event := by
  rw [← acknowledged_nodup_iff process few, List.nodup_iff_count_le_one]
  have counted (authority : Authority) :
      ((acknowledged history).map (·.authority)).count authority =
        (acknowledged history).countP (fun request => request.authority = authority) := by
    rw [List.count, List.countP_map]
    rfl
  constructor
  · intro once authority
    by_cases member : authority ∈ issued history
    · rw [counted]
      exact once authority member
    · have absent : authority ∉ (acknowledged history).map (·.authority) := by
        intro inside
        obtain ⟨request, acknowledged, rfl⟩ := List.mem_map.mp inside
        exact member (process.ledger_holds.acknowledgedIssued request acknowledged)
      rw [List.count_eq_zero_of_not_mem absent]
      exact Nat.zero_le _
  · intro once authority _
    rw [← counted]
    exact once authority

theorem at_most_one_commit_repeated : ∃ history final, ProcessRun [] history final ∧
    issued history = [⟨1, 1, 1, 1⟩] ∧ (acknowledged history).length = 1 ∧
    ∀ event ∈ history, WorkerConsistent event := by
  obtain ⟨history, final, run, numbers, once⟩ := machine.exists_run { coord := {} }
    [.accept 4, .frame 4 MsgType.register.code (ascii "w|7|3"), .accept 5,
      .frame 5 MsgType.submit.code (ascii "7|a"),
      .frame 4 MsgType.complete.code (ascii "1|1|1|1|7|3|done"),
      .frame 4 MsgType.complete.code (ascii "1|1|1|1|7|3|done")]
    (fun history _ => issued history = [⟨1, 1, 1, 1⟩] ∧
      (acknowledged history).length = 1) (by decide +kernel)
  have process : ProcessRun [] history final := ⟨{}, rfl, run⟩
  have few : (issued history).length < 2 ^ 64 := by rw [numbers]; decide
  refine ⟨history, final, process, numbers, once, (at_most_one_commit_iff process few).mp ?_⟩
  intro authority member
  exact List.countP_le_length.trans once.le

/-- One submit to worker 7, completed once as worker 7 and once as worker 8. -/
theorem two_commits_of_one_submit : ¬ ∀ (argv : List Bytes) (history : List Event)
    (final : System), ProcessRun argv history final → (issued history).length < 2 ^ 64 →
      ∀ authority ∈ issued history,
        (acknowledged history).countP (fun request => request.authority = authority) ≤ 1 := by
  intro once
  obtain ⟨history, final, run, numbers, twice⟩ := machine.exists_run { coord := {} }
    [.accept 4, .frame 4 MsgType.register.code (ascii "w|7|3"), .accept 5,
      .frame 5 MsgType.submit.code (ascii "7|a"),
      .frame 4 MsgType.complete.code (ascii "1|1|1|1|7|3|done"),
      .frame 4 MsgType.complete.code (ascii "1|1|1|1|8|3|other")]
    (fun history _ => issued history = [⟨1, 1, 1, 1⟩] ∧
      (acknowledged history).countP (fun request => request.authority = ⟨1, 1, 1, 1⟩) = 2)
    (by decide +kernel)
  have bounded := once [] history final ⟨{}, rfl, run⟩ (by rw [numbers]; decide)
    ⟨1, 1, 1, 1⟩ (by simp [numbers])
  omega

end DoubleCommit

end Coordinator

end ChaosLab

import ChaosLab.CoordinatorSubmit

/-! What each accepted submit asks for, and what the dispatches that follow carry.
When no other submit comes between a submit and its `DISPATCH`, the worker is
handed the work that was submitted under the numbers it is given. -/

set_option autoImplicit false

namespace ChaosLab

namespace Coordinator

open Foundation

/-- The numbers are what `allocate` wrote, the boot that of the worker it found. -/
structure Order where
  authority : Authority
  boot : UInt64
  work : Bytes
deriving DecidableEq

def order? (event : Event) : Option Order :=
  match acceptedSubmit? event.before.coord event.action, event.action with
  | some _, .frame _ _ payload =>
      match parseSubmit payload with
      | .ok (some (_, work)) => some ⟨event.after.coord.authority, event.after.coord.curBoot, work⟩
      | _ => none
  | _, _ => none

def orders (history : List Event) : List Order := history.filterMap order?

/-- The numbers and the work of a `DISPATCH` that was sent whole. -/
def dispatch? (event : Event) : Option (Authority × Bytes) :=
  match event.action with
  | .sendDispatch fd true =>
      match event.before.threads[fd]? with
      | some (.dispatching submission) => some (event.before.coord.authority, submission.work)
      | _ => none
  | _ => none

def dispatches (history : List Event) : List (Authority × Bytes) := history.filterMap dispatch?

section Histories

variable (history later : List Event) (event : Event)

@[simp] theorem orders_append : orders (history ++ later) = orders history ++ orders later :=
  List.filterMap_append ..

@[simp] theorem orders_singleton : orders [event] = (order? event).toList := by
  simp only [orders, List.filterMap_cons, List.filterMap_nil]
  cases order? event <;> rfl

@[simp] theorem dispatches_append :
    dispatches (history ++ later) = dispatches history ++ dispatches later :=
  List.filterMap_append ..

@[simp] theorem dispatches_singleton : dispatches [event] = (dispatch? event).toList := by
  simp only [dispatches, List.filterMap_cons, List.filterMap_nil]
  cases dispatch? event <;> rfl

end Histories

theorem order?_of_refused {event : Event}
    (refused : acceptedSubmit? event.before.coord event.action = none) : order? event = none := by
  simp [order?, refused]

theorem plain_of_parseSubmit {payload work : Bytes} {target : UInt64}
    (read : parseSubmit payload = .ok (some (target, work))) : Byte.pipe ∉ work := by
  simp only [parseSubmit] at read
  split at read
  · rename_i targetText text parts
    obtain ⟨_, _, taken⟩ := bind_ok read
    cases taken
    refine @notMem_of_mem_split payload _ _ ?_
    rw [parts]
    exact List.mem_cons_of_mem _ (List.mem_singleton_self _)
  · cases read

section Accepted

variable {before after : System} {action : Action} {outputs : List Effect} {fd : Int}

theorem accepted_spec (stepped : machine.step before action = some (after, outputs))
    (accepted : acceptedSubmit? before.coord action = some fd) :
    ∃ submission, after.threads = before.threads.insert fd (.dispatching submission) ∧
      Byte.pipe ∉ submission.work ∧
      order? ⟨before, action, outputs, after⟩ =
        some ⟨after.coord.authority, after.coord.curBoot, submission.work⟩ := by
  cases stepped_of_step stepped with
  | @submit sender type payload work target worker ready named read live =>
      have here : sender = fd := by simpa [acceptedSubmit?, named, read, live] using accepted
      subst here
      exact ⟨_, rfl, plain_of_parseSubmit read, by simp [order?, accepted, read]⟩
  | accept | sendDispatch | sendResponse | disconnect => cases accepted
  | register _ named | complete _ named | shutdown _ named =>
      simp [acceptedSubmit?, named] at accepted
  | inert _ unchanging => simp [unchanging.submit] at accepted

theorem plain_of_dispatching (stepped : machine.step before action = some (after, outputs))
    {submission : Submission} (dispatching : after.threads[fd]? = some (.dispatching submission)) :
    before.threads[fd]? = some (.dispatching submission) ∨ Byte.pipe ∉ submission.work := by
  rcases dispatching_of_step stepped dispatching with accepted | waiting
  · obtain ⟨submitted, threads, plain, -⟩ := accepted_spec stepped accepted
    have same : submitted = submission := by simpa [threads] using dispatching
    exact .inr (same ▸ plain)
  · exact .inl waiting

end Accepted

/-- The accepted submits in order, the last of them the current one; and a thread
that is about to send the `DISPATCH` of the last has its work. -/
structure Ordered (history : List Event) (system : System) : Prop where
  authorities : (orders history).map (·.authority) = issued history
  current : ∀ order, (orders history).getLast? = some order →
    order.authority = system.coord.authority ∧ order.boot = system.coord.curBoot
  working : ∀ fd submission, system.threads[fd]? = some (.dispatching submission) →
    latest history = some fd →
    ∃ order, (orders history).getLast? = some order ∧ order.work = submission.work

section Step

variable {history : List Event} {before after : System} {action : Action} {outputs : List Effect}

theorem Ordered.accepted (ordered : Ordered history before)
    (stepped : machine.step before action = some (after, outputs)) {fd : Int}
    (accepted : acceptedSubmit? before.coord action = some fd) :
    Ordered (history ++ [⟨before, action, outputs, after⟩]) after := by
  obtain ⟨submission, threads, -, placed⟩ := accepted_spec stepped accepted
  refine ⟨?_, ?_, ?_⟩
  · simp [ordered.authorities, issued, placed, accepted]
  · intro order last
    simp only [orders_append, orders_singleton, placed, Option.toList_some, List.getLast?_append,
      List.getLast?_singleton, Option.some_or, Option.some.injEq] at last
    subst last
    exact ⟨rfl, rfl⟩
  · intro other found dispatching newest
    simp only [latest, submissions_append, submissions_singleton, accepted, Option.map_some,
      Option.toList_some, List.getLast?_append, List.getLast?_singleton, Option.some_or,
      Option.some.injEq] at newest
    subst newest
    have same : submission = found := by simpa [threads] using dispatching
    refine ⟨_, by rw [orders_append, orders_singleton, placed]; exact List.getLast?_concat, ?_⟩
    exact congrArg Submission.work same

theorem Ordered.refused (logged : Logged before.coord) (ordered : Ordered history before)
    (stepped : machine.step before action = some (after, outputs))
    (refused : acceptedSubmit? before.coord action = none) :
    Ordered (history ++ [⟨before, action, outputs, after⟩]) after := by
  have progress := progress_of_step logged stepped
  rw [refused] at progress
  have unmoved : after.coord.authority = before.coord.authority ∧
      after.coord.curBoot = before.coord.curBoot := by
    generalize acknowledged? ⟨before, action, outputs, after⟩ = answered at progress
    generalize after.coord = coord at progress
    cases progress <;> exact ⟨rfl, rfl⟩
  have same : orders (history ++ [⟨before, action, outputs, after⟩]) = orders history := by
    rw [orders_append, orders_singleton, order?_of_refused refused, Option.toList_none,
      List.append_nil]
  refine ⟨?_, ?_, ?_⟩
  · rw [same, ordered.authorities]
    simp [issued, refused]
  · rw [same, unmoved.1, unmoved.2]
    exact ordered.current
  · rw [same]
    intro fd submission dispatching newest
    simp only [latest, submissions_append, submissions_singleton, refused, Option.map_none,
      Option.toList_none, List.append_nil] at newest
    rcases dispatching_of_step stepped dispatching with accepted | waiting
    · simp [refused] at accepted
    · exact ordered.working fd submission waiting newest

theorem Ordered.step (logged : Logged before.coord) (ordered : Ordered history before)
    (stepped : machine.step before action = some (after, outputs)) :
    Ordered (history ++ [⟨before, action, outputs, after⟩]) after := by
  cases accepted : acceptedSubmit? before.coord action with
  | some fd => exact ordered.accepted stepped accepted
  | none => exact ordered.refused logged stepped accepted

end Step

theorem ProcessRun.ordered {argv : List Bytes} {history : List Event} {final : System}
    (process : ProcessRun argv history final) : Ordered history final := by
  obtain ⟨coord, booted, run⟩ := process
  induction run with
  | nil => exact ⟨rfl, by simp [orders], by simp⟩
  | snoc previous stepped ih =>
      exact ih.step (logged_of_run previous (logged_of_booted booted)) stepped

/-- A completion is acknowledged under the numbers and the boot of an accepted submit. -/
theorem ProcessRun.order_of_acknowledged {argv : List Bytes} {history : List Event}
    {final : System} (process : ProcessRun argv history final) :
    ∀ request ∈ acknowledged history, ∃ order ∈ orders history,
      order.authority = request.authority ∧ order.boot = request.boot := by
  obtain ⟨coord, booted, run⟩ := process
  induction run with
  | nil => simp
  | @snoc history before after action outputs previous stepped ih =>
      intro request member
      rw [acknowledged_append, List.mem_append] at member
      have grown : orders history ⊆ orders (history ++ [⟨before, action, outputs, after⟩]) := by
        simp
      rcases member with earlier | now
      · obtain ⟨order, inside, same⟩ := ih request earlier
        exact ⟨order, grown inside, same⟩
      · have process : ProcessRun argv history before := ⟨coord, booted, previous⟩
        rw [acknowledged_singleton, Option.mem_toList] at now
        have progress := progress_of_step process.logged stepped
        rw [show acknowledged? ⟨before, action, outputs, after⟩ = some request from now] at progress
        generalize after.coord = coord at progress
        generalize acceptedSubmit? before.coord action = submit at progress
        cases progress with
        | commit current =>
            obtain ⟨submitted, authority, boot⟩ := current_iff.mp current
            have placed : orders history ≠ [] := by
              intro empty
              have numbers := process.ordered.authorities
              have some := process.numbered.hasSubmitted
              simp only [empty, List.map_nil] at numbers
              simp only [submitted, true_eq_decide_iff] at some
              exact some (List.map_eq_nil_iff.mp numbers.symm)
            obtain ⟨order, last⟩ := Option.ne_none_iff_exists'.mp
              (mt List.getLast?_eq_none_iff.mp placed)
            obtain ⟨same, ran⟩ := process.ordered.current order last
            exact ⟨order, grown (List.mem_of_getLast? last), by rw [same, authority],
              by rw [ran, boot]⟩

/-- What a worker is handed is the work of the submit that got the numbers it carries. -/
theorem ProcessRun.order_of_dispatched {argv : List Bytes} {history : List Event}
    {final : System} (process : ProcessRun argv history final) (undisturbed : Undisturbed history) :
    ∀ entry ∈ dispatches history, ∃ order ∈ orders history,
      order.authority = entry.1 ∧ order.work = entry.2 := by
  obtain ⟨coord, booted, run⟩ := process
  induction run with
  | nil => simp [dispatches]
  | @snoc history before after action outputs previous stepped ih =>
      obtain ⟨earlier, last⟩ := forall_split_snoc.mp undisturbed
      intro entry member
      rw [dispatches_append, List.mem_append] at member
      rcases member with before | now
      · obtain ⟨order, inside, same⟩ := ih earlier entry before
        exact ⟨order, by simp [inside], same⟩
      · rw [dispatches_singleton, Option.mem_toList] at now
        simp only [dispatch?] at now
        split at now
        · rename_i fd
          split at now
          · rename_i submission ready
            cases now
            have ordered : Ordered history before :=
              ProcessRun.ordered ⟨coord, booted, previous⟩
            obtain ⟨order, placed, same⟩ := ordered.working fd submission ready (last fd rfl)
            refine ⟨order, ?_, (ordered.current order placed).1, same⟩
            rw [orders_append]
            exact List.mem_append_left _ (List.mem_of_getLast? placed)
          · cases now
        · cases now

section OneConnection

/-- A thread that has frames of a submit still to send has had one accepted. -/
theorem submission_of_phase {start final : System} {history : List Event}
    (run : Run machine start history final) (idle : ∀ fd ∈ start.threads, False) :
    ∀ fd phase, final.threads[fd]? = some phase → phase ≠ .receiving → phase ≠ .returned →
      ∃ entry ∈ submissions history, entry.1 = fd := by
  induction run with
  | nil =>
      intro fd phase found _ _
      exact (idle fd (Std.ExtTreeMap.mem_iff_isSome_getElem?.mpr (by simp [found]))).elim
  | @snoc history before after action outputs _ stepped ih =>
      intro fd phase found receiving returned
      have grown : submissions history ⊆
          submissions (history ++ [⟨before, action, outputs, after⟩]) := by
        simp
      suffices (∃ entry ∈ submissions history, entry.1 = fd) ∨
          acceptedSubmit? before.coord action = some fd by
        rcases this with ⟨entry, member, same⟩ | accepted
        · exact ⟨entry, grown member, same⟩
        · exact ⟨(fd, after.coord.authority), by simp [accepted], rfl⟩
      cases stepped_of_step stepped with
      | @submit sender type payload work target worker ready named read live =>
          rw [getElem?_insert_ite] at found
          split at found
          · rename_i same
            obtain rfl := same
            exact .inr (by simp [acceptedSubmit?, named, read, live])
          · exact .inl (ih fd phase found receiving returned)
      | accept | register | complete | inert | shutdown | sendResponse =>
          rw [getElem?_insert_ite] at found
          split at found
          · simp_all
          · exact .inl (ih fd phase found receiving returned)
      | sendDispatch ready =>
          rw [getElem?_insert_ite] at found
          split at found
          · rename_i same
            obtain rfl := same
            exact .inl (ih _ _ ready (by simp) (by simp))
          · exact .inl (ih fd phase found receiving returned)
      | disconnect =>
          rw [getElem?_erase_ite] at found
          split at found
          · cases found
          · exact .inl (ih fd phase found receiving returned)

theorem sender_phase {before after : System} {action : Action} {outputs : List Effect} {fd : Int}
    (stepped : machine.step before action = some (after, outputs))
    (sender : sender? action = some fd) :
    ∃ phase, before.threads[fd]? = some phase ∧ phase ≠ .receiving ∧ phase ≠ .returned := by
  cases stepped_of_step stepped with
  | accept | register | submit | complete | inert | shutdown | disconnect => cases sender
  | sendDispatch ready | sendResponse ready =>
      cases sender
      exact ⟨_, ready, by simp, by simp⟩

/-- Submits that all come over one connection do not disturb each other: its thread
handles one after the other. -/
theorem undisturbed_of_one_connection {argv : List Bytes} {history : List Event} {final : System}
    (process : ProcessRun argv history final) {fd : Int}
    (single : ∀ entry ∈ submissions history, entry.1 = fd) : Undisturbed history := by
  rintro earlier event later rfl sender sends
  obtain ⟨coord, booted, run⟩ := process
  obtain ⟨before, stepped, -⟩ := run.at_split
  obtain ⟨phase, found, receiving, returned⟩ := sender_phase stepped sends
  obtain ⟨entry, member, same⟩ :=
    submission_of_phase before (by simp) sender phase found receiving returned
  have inside : submissions earlier ⊆ submissions (earlier ++ event :: later) := by simp
  obtain ⟨last, newest⟩ := Option.ne_none_iff_exists'.mp
    (mt List.getLast?_eq_none_iff.mp (List.ne_nil_of_mem member))
  rw [latest, newest, Option.map_some, single last (inside (List.mem_of_getLast? newest)), ← same,
    single entry (inside member)]

end OneConnection

theorem ProcessRun.stored {argv : List Bytes} {history : List Event} {final : System}
    (process : ProcessRun argv history final) {sig result : Bytes}
    (found : final.coord.sigResult[sig]? = some result) :
    ∃ request ∈ acknowledged history, signature request = sig ∧ request.result = result := by
  refine process.ledger (fun _ acks s => ∀ sig result, s.sigResult[sig]? = some result →
    ∃ request ∈ acks, signature request = sig ∧ request.result = result) ?_ (by simp) sig result
    found
  intro submits acks before after submit acknowledged _ progress ih sig result found
  cases progress with
  | @commit request _ _ =>
      simp only [commit, getElem?_insert_ite] at found
      split at found
      · rename_i same
        exact ⟨request, by simp, same, Option.some.inj found⟩
      · obtain ⟨request, member, same⟩ := ih sig result found
        exact ⟨request, List.mem_append_left _ member, same⟩
  | submit | keep =>
      obtain ⟨request, member, same⟩ := ih sig result found
      exact ⟨request, List.mem_append_left _ member, same⟩

/-- The numbers of an order are its own. -/
theorem ProcessRun.order_unique {argv : List Bytes} {history : List Event} {final : System}
    (process : ProcessRun argv history final) (few : (issued history).length < 2 ^ 64)
    {order other : Order} (member : order ∈ orders history) (also : other ∈ orders history)
    (same : other.authority = order.authority) : other = order := by
  have distinct : ((orders history).map (·.authority)).Nodup := by
    rw [process.ordered.authorities, process.issued_eq]
    refine List.Nodup.map_on ?_ (List.nodup_range' ..)
    intro left inLeft right inRight same
    rw [List.mem_range'_1] at inLeft inRight
    exact authorityAt_inj (by omega) (by omega) same
  exact List.inj_on_of_nodup_map distinct also member same

end Coordinator

end ChaosLab

import ChaosLab.CoordinatorCommit

/-! Concurrent submits. `handle_submit` assigns its numbers under the lock and
reads them back without it, once for `DISPATCH` and once for `SUBMIT_RESPONSE`;
in between, other submits may be accepted. -/

set_option autoImplicit false

namespace ChaosLab

namespace Coordinator

open Foundation

def sender? : Action → Option Int
  | .sendDispatch fd _ => some fd
  | .sendResponse fd => some fd
  | _ => none

/-- The numbers that the submit being handled on this connection was assigned. -/
def own (history : List Event) (fd : Int) : Option Authority :=
  ((submissions history).filter (·.1 = fd)).getLast?.map (·.2)

def latest (history : List Event) : Option Int := (submissions history).getLast?.map (·.1)

def handout? : Effect → Option Bytes
  | .send _ .dispatch payload => some payload
  | .send _ .submitResponse payload => some payload
  | _ => none

def carried (payload : Bytes) : List Bytes := ((split payload Byte.pipe).drop 1).take 3

def Authority.numbers (authority : Authority) : List Bytes :=
  [toString authority.attempt, toString authority.gen, toString authority.dispatch]

def dispatchNumbers (history : List Event) : List Bytes :=
  (history.flatMap (·.outputs)).filterMap fun effect =>
    match effect with
    | .send _ .dispatch payload => (split payload Byte.pipe)[3]?
    | _ => none

def SendsOwn (earlier : List Event) (event : Event) : Prop :=
  ∀ fd, sender? event.action = some fd → ∃ authority payload,
    own earlier fd = some authority ∧ event.outputs.filterMap handout? = [payload] ∧
      carried payload = authority.numbers

/-- Every submit hands out its own numbers, and no dispatch number is sent twice. -/
def OwnAuthority (history : List Event) : Prop :=
  (∀ earlier event later, history = earlier ++ event :: later → SendsOwn earlier event) ∧
  (dispatchNumbers history).Nodup

/-- Whenever a submit sends one of its frames, no other submit has been accepted
since it was. -/
def Undisturbed (history : List Event) : Prop :=
  ∀ earlier event later, history = earlier ++ event :: later →
    ∀ fd, sender? event.action = some fd → latest earlier = some fd

section Payloads

theorem split_authorityPayload (s : CoordState) :
    split (authorityPayload s) Byte.pipe =
      [toString s.epoch, toString s.curAttempt, toString s.curGen, toString s.curDispatch] := by
  have absent : ∀ value, Byte.pipe ∉ toString value := notMem_toString rfl
  refine split_eq_iff.mpr ⟨by simp, by simp [absent], ?_⟩
  simp [authorityPayload]

example : split (authorityPayload { epoch := 2, curAttempt := 3, curGen := 3, curDispatch := 3 })
    Byte.pipe = [ascii "2", ascii "3", ascii "3", ascii "3"] := by decide +kernel

theorem split_authorityPayload_append (s : CoordState) (rest : Bytes) :
    split (authorityPayload s ++ Byte.pipe :: rest) Byte.pipe =
      [toString s.epoch, toString s.curAttempt, toString s.curGen, toString s.curDispatch] ++
        split rest Byte.pipe := by
  rw [split_append, split_authorityPayload]

theorem numbers_inj {left right : Authority} (same : left.numbers = right.numbers) :
    left.dispatch = right.dispatch := by
  simp only [Authority.numbers, List.cons.injEq, toString_injective.eq_iff] at same
  exact same.2.2.1

theorem sends_current {before after : System} {action : Action} {outputs : List Effect} {fd : Int}
    (stepped : machine.step before action = some (after, outputs))
    (sender : sender? action = some fd) :
    ∃ payload, outputs.filterMap handout? = [payload] ∧
      carried payload = before.coord.authority.numbers := by
  cases stepped_of_step stepped with
  | accept | register | submit | complete | inert | shutdown | disconnect => cases sender
  | @sendDispatch _ _ submission ready =>
      refine ⟨authorityPayload before.coord ++ [Byte.pipe] ++ submission.work, rfl, ?_⟩
      rw [carried, List.append_assoc, List.singleton_append, split_authorityPayload_append]
      rfl
  | @sendResponse _ sent ready =>
      refine ⟨authorityPayload before.coord, ?_, ?_⟩
      · cases sent <;> rfl
      · rw [carried, split_authorityPayload]
        rfl

end Payloads

section Own

variable {argv : List Bytes} {history : List Event} {final : System} {fd : Int}

theorem own_of_latest (process : ProcessRun argv history final)
    (last : latest history = some fd) : own history fd = some final.coord.authority := by
  obtain ⟨entry, found, rfl⟩ := Option.map_eq_some_iff.mp last
  obtain ⟨earlier, whole⟩ := List.getLast?_eq_some_iff.mp found
  have current : entry.2 = final.coord.authority := by
    rw [List.getLast?_eq_getElem?] at found
    obtain ⟨small, numbers⟩ := process.numbered.authority_of_getElem? found
    rw [numbers, process.numbered.current, Nat.sub_add_cancel (by omega)]
  simp [own, whole, current]

theorem latest_of_own (process : ProcessRun argv history final)
    (few : (issued history).length < 2 ^ 64) {authority : Authority}
    (assigned : own history fd = some authority)
    (current : authority.dispatch = final.coord.authority.dispatch) :
    latest history = some fd := by
  obtain ⟨entry, found, rfl⟩ := Option.map_eq_some_iff.mp assigned
  have member := List.mem_of_getLast? found
  obtain ⟨inside, here⟩ := List.mem_filter.mp member
  obtain ⟨index, position⟩ := List.mem_iff_getElem?.mp inside
  obtain ⟨small, numbers⟩ := process.numbered.authority_of_getElem? position
  rw [length_issued] at few
  rw [numbers, process.numbered.current] at current
  have last : index + 1 = (submissions history).length :=
    (ofNat_inj (by omega) few).mp current
  rw [latest, List.getLast?_eq_getElem?, ← last, Nat.add_sub_cancel, position]
  simpa using here

theorem sendsOwn_iff {event : Event} (process : ProcessRun argv history event.before)
    (few : (issued history).length < 2 ^ 64)
    (stepped : machine.step event.before event.action = some (event.after, event.outputs)) :
    SendsOwn history event ↔ ∀ fd, sender? event.action = some fd → latest history = some fd := by
  refine forall_congr' fun fd => forall_congr' fun sender => ?_
  obtain ⟨payload, frame, numbers⟩ := sends_current stepped sender
  constructor
  · intro own
    obtain ⟨authority, _, assigned, sent, carries⟩ := own
    obtain rfl := List.singleton_inj.mp (frame.symm.trans sent)
    exact latest_of_own process few assigned (numbers_inj (carries.symm.trans numbers))
  · intro last
    exact ⟨_, payload, own_of_latest process last, frame, numbers⟩

end Own

section Dispatches

theorem getElem?_of_insert {threads : Std.ExtTreeMap Int ThreadPhase} {fd other : Int}
    {phase : ThreadPhase} {submission : Submission}
    (found : (threads.insert fd phase)[other]? = some (ThreadPhase.dispatching submission)) :
    (other = fd ∧ phase = .dispatching submission) ∨
      threads[other]? = some (ThreadPhase.dispatching submission) := by
  rw [getElem?_insert_ite] at found
  split at found
  · rename_i same
    exact .inl ⟨same.symm, Option.some.inj found⟩
  · exact .inr found

theorem dispatching_of_step {before after : System} {action : Action} {outputs : List Effect}
    (stepped : machine.step before action = some (after, outputs)) {other : Int}
    {submission : Submission}
    (dispatching : after.threads[other]? = some (.dispatching submission)) :
    acceptedSubmit? before.coord action = some other ∨
      before.threads[other]? = some (.dispatching submission) := by
  cases stepped_of_step stepped with
  | submit ready named read live =>
      rcases getElem?_of_insert dispatching with ⟨rfl, -⟩ | kept
      · exact .inl (by simp [acceptedSubmit?, named, read, live])
      · exact .inr kept
  | accept | register | complete | inert | shutdown | sendDispatch | sendResponse =>
      rcases getElem?_of_insert dispatching with ⟨-, impossible⟩ | kept
      · cases impossible
      · exact .inr kept
  | disconnect =>
      rw [getElem?_erase_ite] at dispatching
      split at dispatching
      · cases dispatching
      · exact .inr dispatching

@[simp] theorem dispatchNumbers_append (history later : List Event) :
    dispatchNumbers (history ++ later) = dispatchNumbers history ++ dispatchNumbers later := by
  simp [dispatchNumbers]

theorem dispatchNumbers_of_quiet {event : Event}
    (quiet : ∀ effect ∈ event.outputs, effect.sends .dispatch = false) :
    dispatchNumbers [event] = [] := by
  simp only [dispatchNumbers, List.flatMap_singleton, List.filterMap_eq_nil_iff]
  intro effect member
  have other := quiet effect member
  cases effect with
  | send fd type payload =>
      cases type with
      | dispatch => simp [Effect.sends] at other
      | _ => rfl
  | report | close => rfl

theorem dispatchNumbers_sendDispatch {before after : System} {action : Action}
    (submission : Submission) :
    dispatchNumbers [⟨before, action, sendDispatch before.coord submission, after⟩] =
      [toString before.coord.curDispatch] := by
  have parts := split_authorityPayload_append before.coord submission.work
  simp only [dispatchNumbers, sendDispatch, List.flatMap_singleton, List.filterMap_cons,
    List.filterMap_nil, List.append_assoc, List.singleton_append, parts]
  rfl

/-- The dispatch numbers sent so far are issued ones, each sent once, and not yet
that of a submit that is about to send its own. -/
structure Dispatched (history : List Event) (system : System) : Prop where
  distinct : (dispatchNumbers history).Nodup
  issued : ∀ text ∈ dispatchNumbers history,
    ∃ count ≤ (submissions history).length, text = toString (.ofNat count)
  unsent : ∀ fd submission, system.threads[fd]? = some (.dispatching submission) →
    latest history = some fd →
    toString system.coord.curDispatch ∉ dispatchNumbers history

section Step

variable {argv : List Bytes} {history : List Event} {before after : System} {action : Action}
  {outputs : List Effect}

theorem ProcessRun.curDispatch_eq (process : ProcessRun argv history before) :
    before.coord.curDispatch = .ofNat (submissions history).length :=
  congrArg Authority.dispatch process.numbered.current

theorem Dispatched.sendDispatch {fd : Int} {sent : Bool} {submission : Submission}
    (process : ProcessRun argv history before) (dispatched : Dispatched history before)
    (ready : before.threads[fd]? = some (.dispatching submission))
    (last : latest history = some fd) :
    Dispatched (history ++ [⟨before, .sendDispatch fd sent,
        sendDispatch before.coord submission,
        { before with threads := before.threads.insert fd (.responding sent) }⟩])
      { before with threads := before.threads.insert fd (.responding sent) } where
  distinct := by
    rw [dispatchNumbers_append, dispatchNumbers_sendDispatch, List.nodup_append]
    refine ⟨dispatched.distinct, List.nodup_singleton _, ?_⟩
    rintro text member _ single rfl
    obtain rfl := List.mem_singleton.mp single
    exact dispatched.unsent fd submission ready last member
  issued := by
    rw [dispatchNumbers_append, dispatchNumbers_sendDispatch]
    simp only [List.mem_append, List.mem_singleton, submissions_append, submissions_singleton,
      acceptedSubmit?, Option.map_none, Option.toList_none, List.append_nil]
    intro text member
    cases member with
    | inl earlier => exact dispatched.issued text earlier
    | inr now => exact ⟨_, Nat.le_refl _, by rw [now, process.curDispatch_eq]⟩
  unsent := by
    intro other submission found other_last
    simp only [latest, submissions_append, submissions_singleton, acceptedSubmit?,
      Option.map_none, Option.toList_none, List.append_nil] at other_last
    obtain rfl := Option.some.inj (other_last.symm.trans last)
    simp at found

theorem Dispatched.quiet (process : ProcessRun argv history before)
    (few : (submissions (history ++ [⟨before, action, outputs, after⟩])).length < 2 ^ 64)
    (dispatched : Dispatched history before)
    (stepped : machine.step before action = some (after, outputs))
    (silent : ∀ effect ∈ outputs, effect.sends .dispatch = false) :
    Dispatched (history ++ [⟨before, action, outputs, after⟩]) after := by
  have same : dispatchNumbers (history ++ [⟨before, action, outputs, after⟩]) =
      dispatchNumbers history := by
    rw [dispatchNumbers_append, dispatchNumbers_of_quiet silent, List.append_nil]
  have current := (process.continued (.single stepped)).curDispatch_eq
  refine ⟨same ▸ dispatched.distinct, ?_, ?_⟩
  · rw [same]
    intro text member
    obtain ⟨count, small, written⟩ := dispatched.issued text member
    refine ⟨count, small.trans ?_, written⟩
    rw [submissions_append, List.length_append]
    omega
  · intro other submission found last
    rw [same, current]
    cases accepted : acceptedSubmit? before.coord action with
    | some fd =>
        -- The new number is larger than every number sent before.
        simp only [submissions_append, submissions_singleton, accepted, Option.map_some,
          Option.toList_some, List.length_append, List.length_singleton] at few ⊢
        intro member
        obtain ⟨count, small, written⟩ := dispatched.issued _ member
        have clash := (ofNat_inj few (by omega)).mp (toString_injective written)
        omega
    | none =>
        simp only [latest, submissions_append, submissions_singleton, accepted, Option.map_none,
          Option.toList_none, List.append_nil] at last ⊢
        rw [← process.curDispatch_eq]
        rcases dispatching_of_step stepped found with began | waiting
        · simp [accepted] at began
        · exact dispatched.unsent other submission waiting last

theorem Dispatched.step (process : ProcessRun argv history before)
    (few : (submissions (history ++ [⟨before, action, outputs, after⟩])).length < 2 ^ 64)
    (undisturbed : ∀ fd, sender? action = some fd → latest history = some fd)
    (dispatched : Dispatched history before)
    (stepped : machine.step before action = some (after, outputs)) :
    Dispatched (history ++ [⟨before, action, outputs, after⟩]) after := by
  have inversion := stepped_of_step stepped
  by_cases sending : ∃ fd sent, action = .sendDispatch fd sent
  · obtain ⟨fd, sent, rfl⟩ := sending
    cases inversion with
    | sendDispatch ready => exact dispatched.sendDispatch process ready (undisturbed fd rfl)
  · refine dispatched.quiet process few stepped (not_sends_dispatch inversion ?_)
    exact fun fd sent same => sending ⟨fd, sent, same⟩

end Step

end Dispatches

theorem dispatched_of_undisturbed {argv : List Bytes} {history : List Event} {final : System}
    (process : ProcessRun argv history final) (few : (issued history).length < 2 ^ 64)
    (undisturbed : Undisturbed history) : Dispatched history final := by
  obtain ⟨coord, booted, run⟩ := process
  induction run with
  | nil => exact ⟨List.nodup_nil, by simp [dispatchNumbers], by simp⟩
  | @snoc history state next action outputs previous stepped ih =>
      obtain ⟨earlier, last⟩ := forall_split_snoc.mp undisturbed
      have fewer : (issued history).length < 2 ^ 64 := by
        rw [issued_append, List.length_append] at few
        omega
      rw [length_issued] at few
      exact (ih fewer earlier).step ⟨coord, booted, previous⟩ few last stepped

/-- Every submit hands out its own numbers exactly when no other submit is accepted
between its locked section and the sending of its frames. -/
theorem ownAuthority_iff_undisturbed {argv : List Bytes} {history : List Event} {final : System}
    (process : ProcessRun argv history final) (few : (issued history).length < 2 ^ 64) :
    OwnAuthority history ↔ Undisturbed history := by
  have each : (∀ earlier event later, history = earlier ++ event :: later →
      SendsOwn earlier event) ↔ Undisturbed history := by
    refine forall_congr' fun earlier => forall_congr' fun event => forall_congr' fun later =>
      forall_congr' fun whole => ?_
    subst whole
    obtain ⟨coord, booted, run⟩ := process
    obtain ⟨before, stepped, -⟩ := run.at_split
    rw [issued_append, List.length_append] at few
    exact sendsOwn_iff ⟨coord, booted, before⟩ (by omega) stepped
  rw [OwnAuthority, each]
  refine ⟨And.left, fun undisturbed => ⟨undisturbed, ?_⟩⟩
  exact (dispatched_of_undisturbed process few undisturbed).distinct

theorem ownAuthority_of_sequential_submits : ∃ history final,
    ProcessRun [] history final ∧ (issued history).length = 2 ∧
    dispatchNumbers history = [ascii "1", ascii "2"] ∧ Undisturbed history ∧
    OwnAuthority history := by
  obtain ⟨history, final, run, count, sent, senders⟩ := machine.exists_run { coord := {} }
    [.accept 4, .frame 4 MsgType.register.code (ascii "w|7|3"), .accept 5,
      .frame 5 MsgType.submit.code (ascii "7|a"), .sendDispatch 5 true, .sendResponse 5,
      .accept 6, .frame 6 MsgType.submit.code (ascii "7|b"), .sendDispatch 6 true,
      .sendResponse 6]
    (fun history _ => (issued history).length = 2 ∧
      dispatchNumbers history = [ascii "1", ascii "2"] ∧
      ∀ index < history.length, ∀ fd ∈ history[index]?.bind (fun event => sender? event.action),
        latest (history.take index) = some fd) (by decide +kernel)
  have process : ProcessRun [] history final := ⟨{}, rfl, run⟩
  have few : (issued history).length < 2 ^ 64 := by rw [count]; decide
  have undisturbed : Undisturbed history := by
    rintro earlier event later rfl fd sender
    have last := senders earlier.length (by simp) fd (by simp [sender])
    simpa using last
  exact ⟨history, final, process, count, sent, undisturbed,
    (ownAuthority_iff_undisturbed process few).mpr undisturbed⟩

/-- Two submits are accepted before either sends its frame: both dispatches carry
the number of the second. -/
theorem same_number_dispatched_twice : ¬ ∀ (argv : List Bytes) (history : List Event)
    (final : System), ProcessRun argv history final → (issued history).length < 2 ^ 64 →
      OwnAuthority history := by
  intro owned
  obtain ⟨history, final, run, count, sent⟩ := machine.exists_run { coord := {} }
    [.accept 4, .frame 4 MsgType.register.code (ascii "w|7|3"), .accept 5, .accept 6,
      .frame 5 MsgType.submit.code (ascii "7|a"), .frame 6 MsgType.submit.code (ascii "7|b"),
      .sendDispatch 5 true, .sendDispatch 6 true]
    (fun history _ => (issued history).length = 2 ∧
      dispatchNumbers history = [ascii "2", ascii "2"]) (by decide +kernel)
  have distinct := (owned [] history final ⟨{}, rfl, run⟩ (by rw [count]; decide)).2
  simp [sent] at distinct

end Coordinator

end ChaosLab

import ChaosLab.RuntimeProtocolProperties
import ChaosLab.TargetWorker

/-! The life of a worker process. It serves one connection after another, until it is told
to end or has failed to connect or lost its connection as often as it tries. -/

set_option autoImplicit false

namespace ChaosLab

open Foundation

namespace TargetWorker

/-- How a connection comes to its end; `waiting` while `recv_frame` has not returned. -/
inductive Ending where
  | waiting | lost | told
deriving DecidableEq

/-- The loop over the frames of a connection, as far as these turns go; each has a result
for `cuda_roundtrip`. -/
def serve (settings : Settings) (fd : Int) : List Bool → Socket → List Effect × Ending
  | [], _ => ([], .waiting)
  | roundtrip :: turns, socket =>
      match recvFrame socket with
      | (none, _) => ([], .waiting)
      | (some (.error _), _) => ([], .lost)
      | (some (.ok (type, payload)), rest) =>
          match switchFrame settings roundtrip type payload fd with
          | none => ([.close fd], .told)
          | some effects =>
              let (more, ending) := serve settings fd turns rest
              (effects ++ more, ending)

/-- What an attempt to connect finds. -/
inductive Attempt where
  | refused
  | connected (fd : Int) (turns : List Bool) (socket : Socket)

def identity (settings : Settings) : Bytes :=
  ascii "id=" ++ toString settings.id ++ ascii ";boot=" ++ toString settings.boot

def greeting (settings : Settings) (fd : Int) : List Effect :=
  [.report (ascii "CONNECT") (identity settings), .send fd .register (registerPayload settings)]

/-- What is done on a connection once it has ended. -/
def closing (settings : Settings) (fd : Int) : Ending → List Effect
  | .lost => [.close fd, .report (ascii "LOST") (identity settings)]
  | .told | .waiting => []

/-- One turn of the loop of `main`; a failed `tcp_connect` counts like a loss. -/
def session (settings : Settings) : Attempt → List Effect × Ending
  | .refused => ([], .lost)
  | .connected fd turns socket =>
      let (effects, ending) := serve settings fd turns socket
      (greeting settings fd ++ effects ++ closing settings fd ending, ending)

/-- The loop of `main` over what its turns come to, with the exit code once it has ended.
The count of failed turns is never reset. -/
def mainLoop : Nat → List (List Effect × Ending) → List Effect × Option Nat
  | attempts, [] => ([], if attempts < 200 then none else some 0)
  | attempts, (effects, ending) :: later =>
      if attempts < 200 then
        match ending with
        | .lost =>
            let (more, exit) := mainLoop (attempts + 1) later
            (effects ++ more, exit)
        | .told => (effects, some 0)
        | .waiting => (effects, none)
      else ([], some 0)

def run (settings : Settings) (attempts : List Attempt) : List Effect × Option Nat :=
  mainLoop 0 (attempts.map (session settings))

section Messages

/-- The loop over the messages of a connection, which is lost after the last of them. -/
def answer (settings : Settings) (fd : Int) :
    List Bool → List (UInt32 × Bytes) → List Effect × Ending
  | roundtrip :: turns, (type, payload) :: messages =>
      match switchFrame settings roundtrip type payload fd with
      | none => ([.close fd], .told)
      | some effects =>
          let (more, ending) := answer settings fd turns messages
          (effects ++ more, ending)
  | _, _ => ([], .lost)

variable {settings : Settings} {fd : Int} {messages : List (UInt32 × Bytes)}

/-- The worker answers the messages that arrive whole, however they are cut into pieces. -/
theorem serve_eq_answer (small : ∀ message ∈ messages, message.2.length ≤ maxPayload.toNat)
    {stream : Bytes}
    (cut : stream <+: messages.flatMap fun message => sendFrame message.1 message.2)
    {socket : Socket} (arrives : incoming socket = stream) (ends : afterIncoming socket ≠ [])
    {turns : List Bool} (enough : messages.length < turns.length) :
    serve settings fd turns socket = answer settings fd turns
      (wholeWithin (fun message => sendFrame message.1 message.2) messages stream.length) := by
  induction messages generalizing stream socket turns with
  | nil =>
      obtain rfl : stream = [] := by simpa using cut
      obtain ⟨status, later, failed⟩ :=
        recvFrame_of_short_header (by simp [arrives, Frame.header]) ends
      cases turns with
      | nil => cases enough
      | cons roundtrip turns => simp only [serve, failed, wholeWithin, answer]
  | cons message messages ih =>
      obtain ⟨type, payload⟩ := message
      rw [List.forall_mem_cons] at small
      rw [List.flatMap_cons] at cut
      cases turns with
      | nil => cases enough
      | cons roundtrip turns =>
          rcases cut_cases cut with ⟨short, within⟩ | ⟨tail, whole, rest⟩
          · rw [← arrives] at short within
            obtain ⟨status, later, failed⟩ := recvFrame_of_cut small.1 within short ends
            rw [← arrives, wholeWithin, if_neg (Nat.not_le_of_lt short)]
            simp only [serve, failed, answer]
          · rw [whole] at arrives
            obtain ⟨later, received, left, after⟩ := recvFrame_of_message small.1 arrives
            rw [← after] at ends
            have continued := ih small.2 rest left ends (Nat.lt_of_succ_lt_succ enough)
            rw [whole, wholeWithin, List.length_append, if_pos (Nat.le_add_right _ _),
              Nat.add_sub_cancel_left]
            simp only [serve, received, answer, continued]

/-- A message that ends the process. -/
def Tells (message : UInt32 × Bytes) : Bool := MsgType.ofCode? message.1 = some .shutdown

theorem switchFrame_eq_none_iff {roundtrip : Bool} {message : UInt32 × Bytes} :
    switchFrame settings roundtrip message.1 message.2 fd = none ↔ Tells message = true := by
  simp only [switchFrame, Tells, decide_eq_true_eq]
  split <;> simp_all

/-- Each message before the first `SHUTDOWN` is answered by itself, in order, and none
after it. -/
theorem answer_eq (settings : Settings) (fd : Int) (turns : List Bool)
    (enough : messages.length ≤ turns.length) :
    answer settings fd turns messages =
      ((turns.zip (messages.takeWhile fun message => !Tells message)).flatMap
          (fun turn => (switchFrame settings turn.1 turn.2.1 turn.2.2 fd).getD []) ++
        (if messages.any Tells then [.close fd] else []),
        if messages.any Tells then .told else .lost) := by
  induction messages generalizing turns with
  | nil => cases turns <;> simp [answer]
  | cons message messages ih =>
      cases turns with
      | nil => cases enough
      | cons roundtrip turns =>
          cases switched : switchFrame settings roundtrip message.1 message.2 fd with
          | none =>
              have tells := switchFrame_eq_none_iff.mp switched
              simp [answer, switched, tells]
          | some effects =>
              have stays : Tells message = false := by
                rw [Bool.eq_false_iff]
                intro tells
                rw [switchFrame_eq_none_iff.mpr tells] at switched
                cases switched
              have later : (message :: messages).any Tells = messages.any Tells := by
                rw [List.any_cons, stays, Bool.false_or]
              rw [later]
              simp [answer, switched, stays, ih turns (Nat.le_of_succ_le_succ enough)]

end Messages

section Life

/-- The ways in which the loop of `main` goes through its turns: which it takes, and the
exit code. -/
inductive Lived (attempts : Nat) (sessions : List (List Effect × Ending)) :
    List (List Effect × Ending) → Option Nat → Prop where
  | told {losses later : List (List Effect × Ending)} {effects : List Effect}
      (parts : sessions = losses ++ (effects, .told) :: later)
      (lost : ∀ turn ∈ losses, turn.2 = .lost) (left : losses.length + attempts < 200) :
      Lived attempts sessions (losses ++ [(effects, .told)]) (some 0)
  | spent {losses later : List (List Effect × Ending)} (parts : sessions = losses ++ later)
      (lost : ∀ turn ∈ losses, turn.2 = .lost) (none : losses.length + attempts = 200) :
      Lived attempts sessions losses (some 0)
  | waiting {losses later : List (List Effect × Ending)} {effects : List Effect}
      (parts : sessions = losses ++ (effects, .waiting) :: later)
      (lost : ∀ turn ∈ losses, turn.2 = .lost) (left : losses.length + attempts < 200) :
      Lived attempts sessions (losses ++ [(effects, .waiting)]) none
  | trying (lost : ∀ turn ∈ sessions, turn.2 = .lost) (left : sessions.length + attempts < 200) :
      Lived attempts sessions sessions none

theorem Lived.lose {attempts : Nat} {sessions tried : List (List Effect × Ending)}
    {exit : Option Nat} {effects : List Effect}
    (lived : Lived (attempts + 1) sessions tried exit) :
    Lived attempts ((effects, .lost) :: sessions) ((effects, .lost) :: tried) exit := by
  cases lived with
  | told parts lost left =>
      rw [← List.cons_append]
      exact .told (by rw [parts, List.cons_append]) (List.forall_mem_cons.mpr ⟨rfl, lost⟩)
        (by rw [List.length_cons]; omega)
  | spent parts lost none =>
      exact .spent (by rw [parts, List.cons_append]) (List.forall_mem_cons.mpr ⟨rfl, lost⟩)
        (by rw [List.length_cons]; omega)
  | waiting parts lost left =>
      rw [← List.cons_append]
      exact .waiting (by rw [parts, List.cons_append]) (List.forall_mem_cons.mpr ⟨rfl, lost⟩)
        (by rw [List.length_cons]; omega)
  | trying lost left =>
      exact .trying (List.forall_mem_cons.mpr ⟨rfl, lost⟩) (by rw [List.length_cons]; omega)

theorem mainLoop_lived {attempts : Nat} (few : attempts ≤ 200)
    (sessions : List (List Effect × Ending)) :
    ∃ tried exit, mainLoop attempts sessions = (tried.flatMap (·.1), exit) ∧
      Lived attempts sessions tried exit := by
  induction sessions generalizing attempts with
  | nil =>
      by_cases left : attempts < 200
      · exact ⟨[], none, by simp [mainLoop, left], .trying (by simp) (by simpa using left)⟩
      · exact ⟨[], some 0, by simp [mainLoop, left],
          .spent rfl (by simp) (by rw [List.length_nil]; omega)⟩
  | cons turn sessions ih =>
      obtain ⟨effects, ending⟩ := turn
      by_cases left : attempts < 200
      · have room : ([] : List (List Effect × Ending)).length + attempts < 200 := by
          simpa using left
        cases ending with
        | lost =>
            obtain ⟨tried, exit, output, lived⟩ := ih left
            exact ⟨(effects, .lost) :: tried, exit, by simp [mainLoop, left, output], lived.lose⟩
        | told =>
            exact ⟨[(effects, .told)], some 0, by simp [mainLoop, left],
              @Lived.told attempts _ [] sessions effects rfl (by simp) room⟩
        | waiting =>
            exact ⟨[(effects, .waiting)], none, by simp [mainLoop, left],
              @Lived.waiting attempts _ [] sessions effects rfl (by simp) room⟩
      · exact ⟨[], some 0, by simp [mainLoop, left],
          .spent rfl (by simp) (by rw [List.length_nil]; omega)⟩

/-- What comes over a connection, or that there is none. The messages are those that arrive
whole before the connection is lost. -/
inductive Heard where
  | nothing
  | messages (fd : Int) (turns : List Bool) (whole : List (UInt32 × Bytes))

/-- A connection over which a stream of messages arrives, cut into any pieces and cut off at
any place. -/
inductive Delivered : Attempt → Heard → Prop where
  | refused : Delivered .refused .nothing
  | connected {fd : Int} {turns : List Bool} {messages : List (UInt32 × Bytes)} {socket : Socket}
      (small : ∀ message ∈ messages, message.2.length ≤ maxPayload.toNat)
      (cut : incoming socket <+: messages.flatMap fun message => sendFrame message.1 message.2)
      (ends : afterIncoming socket ≠ []) (enough : messages.length < turns.length) :
      Delivered (.connected fd turns socket) (.messages fd turns
        (wholeWithin (fun message => sendFrame message.1 message.2) messages
          (incoming socket).length))

/-- What a worker does for what it hears: it registers, answers every message before the
first `SHUTDOWN` once and in order, and closes. -/
def conduct (settings : Settings) : Heard → List Effect × Ending
  | .nothing => ([], .lost)
  | .messages fd turns whole =>
      let ending := if whole.any Tells then Ending.told else .lost
      (greeting settings fd ++
        (turns.zip (whole.takeWhile fun message => !Tells message)).flatMap
          (fun turn => (switchFrame settings turn.1 turn.2.1 turn.2.2 fd).getD []) ++
        (if whole.any Tells then [.close fd] else closing settings fd .lost), ending)

theorem length_wholeWithin_le {Item Symbol : Type} (encode : Item → List Symbol)
    (items : List Item) (size : Nat) : (wholeWithin encode items size).length ≤ items.length := by
  rw [wholeWithin_eq_take]
  exact List.length_take_le' ..

theorem Delivered.session_eq {attempt : Attempt} {heard : Heard}
    (delivered : Delivered attempt heard) (settings : Settings) :
    session settings attempt = conduct settings heard := by
  cases delivered with
  | refused => rfl
  | @connected fd turns messages socket small cut ends enough =>
      have short := length_wholeWithin_le (fun message => sendFrame message.1 message.2) messages
        (incoming socket).length
      simp only [session, conduct, serve_eq_answer small cut rfl ends enough,
        answer_eq settings fd turns (Nat.le_trans short (Nat.le_of_lt enough))]
      split <;> simp [closing]

/-- The whole life of a worker: what it sends depends only on the messages that reach it
whole, and it returns 0 only when it is told to or for the 200th time has not connected
or has lost its connection. -/
theorem run_lived (settings : Settings) {attempts : List Attempt} {heard : List Heard}
    (delivered : List.Forall₂ Delivered attempts heard) :
    ∃ tried exit, run settings attempts = (tried.flatMap (·.1), exit) ∧
      Lived 0 (heard.map (conduct settings)) tried exit := by
  have same : attempts.map (session settings) = heard.map (conduct settings) := by
    induction delivered with
    | nil => rfl
    | cons first _ ih => rw [List.map_cons, List.map_cons, first.session_eq, ih]
  rw [run, same]
  exact mainLoop_lived (Nat.zero_le _) _

theorem run_lived_until_shutdown : ∃ tried exit,
    run {} [.refused, .connected 4 [false, false, false]
      [.data ((sendFrame MsgType.ping.code []).take 5) (by decide),
        .data ((sendFrame MsgType.ping.code []).drop 5 ++ sendFrame MsgType.shutdown.code [])
          (by decide), .closed]] = (tried.flatMap (·.1), exit) ∧
      Lived 0 [([], .lost), (greeting {} 4 ++ [.send 4 .pong (ascii "pong"), .close 4], .told)]
        tried exit := by
  obtain ⟨tried, exit, output, lived⟩ := run_lived {} <| .cons .refused <| .cons
    (@Delivered.connected 4 [false, false, false]
      [(MsgType.ping.code, []), (MsgType.shutdown.code, [])]
      [.data ((sendFrame MsgType.ping.code []).take 5) (by decide),
        .data ((sendFrame MsgType.ping.code []).drop 5 ++ sendFrame MsgType.shutdown.code [])
          (by decide), .closed]
      (by simp) (by decide) (by simp [afterIncoming]) (by decide)) .nil
  refine ⟨tried, exit, output, ?_⟩
  have conducted : conduct {} (.messages 4 [false, false, false]
      [(MsgType.ping.code, []), (MsgType.shutdown.code, [])]) =
        (greeting {} 4 ++ [.send 4 .pong (ascii "pong"), .close 4], .told) := by decide +kernel
  rw [← conducted]
  exact lived

end Life

end TargetWorker

end ChaosLab

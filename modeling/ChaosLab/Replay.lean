import ChaosLab.Evidence
import ChaosLab.Scheduler

/-! Comparing two evidence streams, re-evaluating one against a digest and planning a campaign
once more, as `replay.cpp` does it. -/

set_option autoImplicit false

namespace ChaosLab

open EvidenceRecorder

inductive ReplayMode where
  | planReplay
  | evidenceReplay
  | compare
deriving DecidableEq, Repr

structure ReplayReport where
  mode : ReplayMode := .compare
  samePlan : Bool := true
  sameInjections : Bool := true
  sameAssertions : Bool := true
  sameTerminalState : Bool := true
  sameStateDigest : Bool := true
  differences : List Bytes := []
deriving DecidableEq

def ReplayReport.allSame (report : ReplayReport) : Bool :=
  report.samePlan && report.sameInjections && report.sameAssertions &&
    report.sameTerminalState && report.sameStateDigest

def recordDiffers (left right : EvidenceRecord) : Bool :=
  left.id != right.id || left.kind != right.kind || left.phase != right.phase ||
    left.toText != right.toText

def recordDifferences (index : Nat) : List EvidenceRecord → List EvidenceRecord → List Bytes
  | left :: lefts, right :: rights =>
      (if recordDiffers left right then
        [ascii "record " ++ decimal index ++ ascii " differs"] else []) ++
        recordDifferences (index + 1) lefts rights
  | _, _ => []

def countKind (records : List EvidenceRecord) (kind : EvidenceKind) : Nat :=
  records.countP fun ev => ev.kind == kind

/-- The terminal phase: the `phase` field of the last `FINAL_RESULT` record. -/
def terminalPhase (records : List EvidenceRecord) : Bytes :=
  records.foldl (fun phase ev =>
    if ev.kind = .finalResult then ev.fieldOr (ascii "phase") [] else phase) []

def compareRuns (a b : List EvidenceRecord) : ReplayReport :=
  let countDifference :=
    if a.length ≠ b.length then
      [ascii "evidence record count differs: " ++ decimal a.length ++ ascii " vs " ++
        decimal b.length]
    else []
  let records := recordDifferences 0 a b
  let sameInjections := countKind a .injection == countKind b .injection
  let sameAssertions := countKind a .assertion == countKind b .assertion
  let sameTerminalState := terminalPhase a == terminalPhase b
  let sameStateDigest := (recordRawAll a).digest.equal (recordRawAll b).digest
  { mode := .compare
    samePlan := countDifference.isEmpty && records.isEmpty
    sameInjections := sameInjections
    sameAssertions := sameAssertions
    sameTerminalState := sameTerminalState
    sameStateDigest := sameStateDigest
    differences := countDifference ++ records ++
      (if sameInjections then [] else [ascii "injection counts differ"]) ++
      (if sameAssertions then [] else [ascii "assertion counts differ"]) ++
      (if sameTerminalState then [] else
        [ascii "terminal phase differs: " ++ terminalPhase a ++ ascii " vs " ++
          terminalPhase b]) ++
      (if sameStateDigest then [] else [ascii "state digest differs"]) }

def replayEvidence (records : List EvidenceRecord) (expected : Digest256) : ReplayReport :=
  let actual := (recordRawAll records).digest
  let same := actual.equal expected
  { mode := .evidenceReplay
    sameStateDigest := same
    differences := if same then [] else
      [ascii "recomputed digest differs: " ++ actual.hex ++ ascii " vs expected " ++
        expected.hex] }

/-- The ids of the whole plan, or of what the events fire. -/
def replayFired (campaign : ChaosCampaign) (events : List Bytes) : List Bytes :=
  let sched := FaultScheduler.plan { seed := campaign.seed } campaign
  if events = [] then sched.schedule.map fun si => si.id.toString
  else (sched.observeAll (events.map .event)).1.map Id.toString

/-- The loop of `replay_plan` over the injections, from `index` on. -/
def compareInjections (r : ReplayReport) (index : Nat) : List Bytes → List Bytes → ReplayReport
  | fired :: rest, expected :: others =>
      let r := if fired ≠ expected then
          { r with
            sameInjections := false
            differences := r.differences ++
              [ascii "injection " ++ decimal index ++ ascii " differs"] }
        else r
      compareInjections r (index + 1) rest others
  | _, _ => r

def replayPlan (campaign : ChaosCampaign) (events expectedInjections : List Bytes) :
    ReplayReport :=
  let r : ReplayReport := { mode := .planReplay }
  let fired := replayFired campaign events
  if fired.length ≠ expectedInjections.length then
    { r with
      sameInjections := false
      differences := r.differences ++
        [ascii "injection count differs: " ++ decimal fired.length ++ ascii " vs " ++
          decimal expectedInjections.length] }
  else compareInjections r 0 fired expectedInjections

end ChaosLab

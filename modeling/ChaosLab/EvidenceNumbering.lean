import ChaosLab.ReplayProperties
import ChaosLab.Foundation.Threads

/-! Evidence numbers: those of concurrent calls, of histories that also take
records as they are, and of a recorder filled from another one's records. -/

set_option autoImplicit false

namespace ChaosLab

open Foundation

namespace EvidenceRecorder

/-- The record that the call number `position` of a record-only history leaves. -/
def numbered (position : Nat) (call : RecordCall) : EvidenceRecord where
  id := UInt64.ofNat (position + 1)
  kind := call.kind
  seq := Int64.ofNat position
  phase := call.phase
  fields := call.fields
  payload := call.payload

theorem ofNat_succ (position : Nat) : Int64.ofNat position + 1 = Int64.ofNat (position + 1) := by
  rw [Int64.ofNat_add]
  rfl

theorem recordAll_concat (earlier : List RecordCall) (call : RecordCall) :
    recordAll (earlier ++ [call]) = (recordAll earlier).record call := by
  simp [recordAll]

theorem recordAll_eq (calls : List RecordCall) :
    recordAll calls = {
      records := calls.mapIdx numbered
      nextSeq := Int64.ofNat calls.length } := by
  induction calls using List.reverseRecOn with
  | nil => rfl
  | append_singleton earlier call ih =>
      rw [recordAll_concat, ih, List.mapIdx_concat, List.length_append, List.length_singleton,
        ← ofNat_succ]
      simp only [record, newRecord, numbered, ofNat_succ]
      rfl

section History

/-- A call that puts a record into the recorder. -/
inductive StoreCall where
  | record (call : RecordCall)
  | recordRaw (ev : EvidenceRecord)
deriving DecidableEq

def store (recorder : EvidenceRecorder) : StoreCall → EvidenceRecorder
  | .record call => recorder.record call
  | .recordRaw ev => recorder.recordRaw ev

def storeAll (history : List StoreCall) : EvidenceRecorder := history.foldl store {}

theorem storeAll_concat (earlier : List StoreCall) (last : StoreCall) :
    storeAll (earlier ++ [last]) = (storeAll earlier).store last := by
  simp [storeAll]

theorem toInt_seq_succ {seq : Int64} (below : seq ≠ Int64.maxValue) :
    (seq + 1).toInt = seq.toInt + 1 := by
  have apart : seq.toInt ≠ 2 ^ 63 - 1 := by
    rw [← Int64.toInt_maxValue]
    exact fun same => below (Int64.toInt_inj.mp same)
  have upper := seq.toInt_lt
  have lower := seq.le_toInt
  rw [Int64.toInt_add, show (1 : Int64).toInt = 1 from rfl]
  exact Int.bmod_eq_of_le (by omega) (by omega)

theorem records_subset_store (recorder : EvidenceRecorder) (last : StoreCall) :
    recorder.records ⊆ (recorder.store last).records := by
  cases last with
  | record call => exact List.subset_append_left _ _
  | recordRaw ev => exact List.subset_append_left _ _

/-- The step lemma of the sequence numbers. -/
theorem seq_lt_store {recorder : EvidenceRecorder}
    (ahead : ∀ ev ∈ recorder.records, ev.seq.toInt < recorder.nextSeq.toInt) {last : StoreCall}
    (below : ∀ ev ∈ (recorder.store last).records, ev.seq ≠ Int64.maxValue) :
    ∀ ev ∈ (recorder.store last).records, ev.seq.toInt < (recorder.store last).nextSeq.toInt := by
  cases last with
  | record call =>
      have next : (recorder.nextSeq + 1).toInt = recorder.nextSeq.toInt + 1 :=
        toInt_seq_succ (below (recorder.newRecord call) (List.mem_append_right _ (.head _)))
      intro ev member
      change ev.seq.toInt < (recorder.nextSeq + 1).toInt
      rw [next]
      rcases List.mem_append.mp member with old | new
      · have earlier := ahead ev old
        omega
      · rw [List.mem_singleton.mp new]
        exact Int.lt_succ _
  | recordRaw raw =>
      have next : (raw.seq + 1).toInt = raw.seq.toInt + 1 :=
        toInt_seq_succ (below raw (List.mem_append_right _ (.head _)))
      intro ev member
      change ev.seq.toInt <
        (if recorder.nextSeq ≤ raw.seq then raw.seq + 1 else recorder.nextSeq).toInt
      have stored := List.mem_append.mp member
      by_cases reaches : recorder.nextSeq ≤ raw.seq
      · have from_next := Int64.le_iff_toInt_le.mp reaches
        rw [if_pos reaches, next]
        cases stored with
        | inl old =>
            have earlier := ahead ev old
            omega
        | inr new =>
            rw [List.mem_singleton.mp new]
            exact Int.lt_succ _
      · rw [if_neg reaches]
        cases stored with
        | inl old => exact ahead ev old
        | inr new =>
            rw [List.mem_singleton.mp new]
            rw [Int64.le_iff_toInt_le] at reaches
            omega

theorem seq_lt_storeAll {history : List StoreCall}
    (below : ∀ ev ∈ (storeAll history).records, ev.seq ≠ Int64.maxValue) :
    ∀ ev ∈ (storeAll history).records, ev.seq.toInt < (storeAll history).nextSeq.toInt := by
  induction history using List.reverseRecOn with
  | nil => simp [storeAll]
  | append_singleton earlier last ih =>
      rw [storeAll_concat] at below ⊢
      exact seq_lt_store (ih fun ev member => below ev (records_subset_store _ last member)) below

theorem records_subset_storeAll (earlier later : List StoreCall) :
    (storeAll earlier).records ⊆ (storeAll (earlier ++ later)).records := by
  induction later using List.reverseRecOn with
  | nil => rw [List.append_nil]; exact List.Subset.refl _
  | append_singleton later last ih =>
      rw [← List.append_assoc, storeAll_concat]
      exact List.Subset.trans ih (records_subset_store _ last)

end History

section Replayed

theorem recordRaw_numbered (records : List EvidenceRecord) (position : Nat) (call : RecordCall) :
    ({ records, nextSeq := Int64.ofNat position } : EvidenceRecorder).recordRaw
        (numbered position call) =
      { records := records ++ [numbered position call]
        nextSeq := Int64.ofNat (position + 1) } := by
  have reaches : Int64.ofNat position ≤ (numbered position call).seq := Int64.le_refl _
  rw [recordRaw, if_pos reaches, ← ofNat_succ]
  rfl

/-- A recorder filled with the records of another one is that recorder. -/
theorem recordRawAll_records (calls : List RecordCall) :
    recordRawAll (recordAll calls).records = recordAll calls := by
  rw [recordAll_eq]
  induction calls using List.reverseRecOn with
  | nil => rfl
  | append_singleton earlier call ih =>
      simp only [recordRawAll] at ih ⊢
      rw [List.mapIdx_concat, List.foldl_concat, ih, recordRaw_numbered, List.length_append,
        List.length_singleton]

end Replayed

/-- Evidence numbers survive concurrency and reload. -/
theorem evidence_numbering_survives {Thread : Type} [DecidableEq Thread] (threads : Thread → List RecordCall) :
    (∀ history final, Run (atomically record) ⟨threads, {}⟩ history final →
      final.shared.records.map EvidenceRecord.call = doneItems history ∧
      (∀ thread, doneBy thread history ++ final.remaining thread = threads thread) ∧
      ∀ position ev, final.shared.records[position]? = some ev →
        ev.seq = Int64.ofNat position ∧ ev.id = UInt64.ofNat (position + 1)) ∧
    (∀ history : List StoreCall,
      (∀ ev ∈ (storeAll history).records, ev.seq ≠ Int64.maxValue) →
        (∀ ev ∈ (storeAll history).records, ev.seq < (storeAll history).nextSeq) ∧
        ∀ earlier call later, history = earlier ++ .record call :: later →
          ∀ ev ∈ (storeAll earlier).records, ev.seq ≠ ((storeAll earlier).newRecord call).seq) ∧
    ∀ calls : List RecordCall,
      recordRawAll (recordAll calls).records = recordAll calls ∧
      ∀ (later : List RecordCall) (call : RecordCall),
        ((later.foldl record (recordRawAll (recordAll calls).records)).newRecord call).id =
          ((later.foldl record (recordAll calls)).newRecord call).id ∧
        (later.foldl record (recordRawAll (recordAll calls).records)).digest =
          (later.foldl record (recordAll calls)).digest := by
  refine ⟨fun history final run => ?_, fun history below => ?_, fun calls => ?_⟩
  · have shared : final.shared = recordAll (doneItems history) := shared_eq_foldl run
    refine ⟨?_, doneBy_append_remaining run, fun position ev found => ?_⟩
    · rw [shared]
      exact (recordAll_spec _).1
    · rw [shared, recordAll_eq, List.getElem?_mapIdx, Option.map_eq_some_iff] at found
      obtain ⟨call, _, rfl⟩ := found
      exact ⟨rfl, rfl⟩
  · refine ⟨fun ev member => ?_, ?_⟩
    · exact Int64.lt_iff_toInt_lt.mpr (seq_lt_storeAll below ev member)
    · rintro earlier call later rfl ev member same
      have ahead := seq_lt_storeAll (fun other inside =>
        below other (records_subset_storeAll earlier _ inside)) ev member
      rw [same] at ahead
      exact lt_irrefl _ ahead
  · rw [recordRawAll_records]
    exact ⟨rfl, fun _ _ => ⟨rfl, rfl⟩⟩

end EvidenceRecorder

end ChaosLab

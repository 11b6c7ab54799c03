import Yolov5Rknn.Proofs.TrackerCall
import Mathlib.LinearAlgebra.Matrix.Adjugate
import Mathlib.Data.Rat.Sqrt

/-! Identities over whole runs. Every list of a tracker holds an id at most once,
no id is in two of them, and a new track never takes an old id. -/

namespace Yolov5Rknn.BYTETracker
open Matching Transition

variable {F : Type} {start process next : Process F} {event : Event F}

/-- A process whose tracker is valid and holds only ids that were issued. -/
structure Known (process : Process F) : Prop where
  valid : Valid process.tracker process.count
  taken : ∀ id ∈ process.issued, id ≤ process.count
  held : ∀ id ∈ ids process.tracker.trackedStracks ++ ids process.tracker.lostStracks ++
    ids process.tracker.removedStracks, id ∈ process.issued

theorem Fresh.known (fresh : Fresh start) : Known start := by
  obtain ⟨_, tracked, lost, removed, issued⟩ := fresh
  refine ⟨⟨?_, ?_, ?_, ?_⟩, ?_, ?_⟩ <;> simp [tracked, lost, removed, issued, ids]

variable [Arithmetic F] {calls : Calls F}

theorem step_known (partitions : Partitions calls) (known : Known process)
    (taken : step calls event process = some next) : Known next := by
  obtain ⟨valid, issued, held⟩ := known
  cases event with
  | nextId =>
    cases taken
    have grown : process.count ≤ process.count + 1 := Int.le_add_one (le_refl _)
    refine ⟨valid.later grown, fun id member => ?_, fun id member => List.mem_append_left _ (held id member)⟩
    obtain old | new := List.mem_append.mp member
    · exact (issued id old).trans grown
    · exact (List.mem_singleton.mp new).le
  | update objects fps numFrames =>
    cases taken
    have counted := call_counted (rfl : update calls objects fps numFrames process.count process.tracker = _)
    refine ⟨valid.next partitions rfl, fun id member => ?_, fun id member => ?_⟩
    · obtain old | new := List.mem_append.mp member
      · exact (issued id old).trans counted.1
      · obtain ⟨track, created, rfl⟩ := List.mem_map.mp new
        obtain ⟨pair, listed, rfl⟩ := List.mem_map.mp created
        exact (counted.2 pair listed).2
    · apply List.mem_append.mpr
      exact (valid.next_ids partitions rfl id member).imp_left (held id)

theorem reachable_known (partitions : Partitions calls) (fresh : Fresh start)
    (reached : Reachable (step calls) start process) : Known process :=
  reachable_keeps Known (fun _ _ _ known taken => step_known partitions known taken) fresh.known reached

/-- Tracked tracks under distinct ids, none of them lost at the same time, and new
tracks that take no id anyone has had. -/
structure Unique (calls : Calls F) (process : Process F) : Prop where
  tracked : ∀ track ∈ process.tracker.trackedStracks, track.state = .tracked
  trackedIds : (ids process.tracker.trackedStracks).Nodup
  lostIds : (ids process.tracker.lostStracks).Nodup
  disjoint : List.Disjoint (ids process.tracker.trackedStracks) (ids process.tracker.lostStracks)
  issued : ∀ id ∈ ids process.tracker.trackedStracks ++ ids process.tracker.lostStracks ++
    ids process.tracker.removedStracks, id ∈ process.issued
  created : ∀ objects fps numFrames,
    let new := ids ((update calls objects fps numFrames process.count process.tracker).created.map Prod.fst)
    new.Nodup ∧ ∀ id ∈ new, id ∉ process.issued

/-- Identities are unique in every run of a tracker, whatever ids the other trackers
of the process take in between. -/
theorem identities_unique (partitions : Partitions calls) (fresh : Fresh start)
    (reached : Reachable (step calls) start process) : Unique calls process := by
  obtain ⟨valid, issued, held⟩ := reachable_known partitions fresh reached
  have distinct := List.nodup_append.mp valid.distinct
  refine ⟨valid.tracked, distinct.1, distinct.2.1, List.disjoint_of_nodup_append valid.distinct, held,
    fun objects fps numFrames => ⟨newTracks_nodup, fun id member old => ?_⟩⟩
  obtain ⟨track, created, rfl⟩ := List.mem_map.mp member
  obtain ⟨pair, listed, rfl⟩ := List.mem_map.mp created
  have above := ((call_counted rfl).2 pair listed).1
  exact absurd (issued _ old) (not_le_of_gt above)

/-- Exact rational arithmetic. With one track and one object the solver takes the
diagonal, as long as their boxes are close. -/
def sampleCalls : Calls ℚ where
  linearAssignment _ rows cols _ := diagonal rows cols
  lltSolve s b := s.det⁻¹ • (s.adjugate * b)
  sqrt := Rat.sqrt
  toInt x := x.num.tdiv x.den
  lround x := if 0 ≤ x then (x + 1 / 2).floor else -(1 / 2 - x).floor

theorem sampleCalls_partitions : Partitions sampleCalls :=
  fun _ rows cols _ _ => diagonal_isPartition rows cols

/-- Thirty frames a second, and lost tracks kept for one frame. -/
def sampleStart : Process ℚ := ⟨create sampleCalls 30 1 (1 / 2) (3 / 5) (4 / 5), 0, []⟩

theorem sampleStart_fresh : Fresh sampleStart := ⟨rfl, rfl, rfl, rfl, rfl⟩

def sampleObject : Object ℚ := ⟨100, 100, 50, 80, 0, 9 / 10, [99, 97, 114]⟩

/-- The frame `number` with the object, or with none. -/
def seen (number : Int) : Event ℚ := .update [sampleObject] 30 number

def missed (number : Int) : Event ℚ := .update [] 30 number

theorem identities_unique_sample : ∃ process,
    run (step sampleCalls) [seen 1, missed 2, .nextId, seen 3] sampleStart = some process ∧
      Unique sampleCalls process :=
  ⟨_, rfl, identities_unique sampleCalls_partitions sampleStart_fresh
    ⟨[seen 1, missed 2, .nextId, seen 3], rfl⟩⟩

end Yolov5Rknn.BYTETracker

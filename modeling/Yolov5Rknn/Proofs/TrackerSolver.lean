import Yolov5Rknn.Proofs.ByteAssignment
import Yolov5Rknn.Proofs.TrackerDetections
import Yolov5Rknn.Logic.Simulation

/-! The tracker with the solver of the source. The matrices that `update` hands to
`linear_assignment` are among those it was proved right for, so what was proved of the tracker under a
hypothesis on its solver holds without it. -/

namespace Yolov5Rknn.BYTETracker
open Program Matching Assignment Pointers Transition Simulation

section model

variable {F : Type} [Arithmetic F]

/-- The parameter gives what `linear_assignment` returns, wherever it returns. -/
def Solves (calls : Calls F) : Prop :=
  ∀ dists rows cols thresh assignment,
    Ends (linearAssignmentRows dists rows cols thresh) (fun result => result = some assignment) →
      calls.linearAssignment dists rows cols thresh = assignment

open Classical in
/-- What `linear_assignment` returns, if anything. -/
noncomputable def solver (dists : List (List F)) (rows cols : Nat) (thresh : F) : Assignment :=
  if ended : ∃ assignment, Ends (linearAssignmentRows dists rows cols thresh) (fun result => result = some assignment)
  then ended.choose else ⟨[], [], []⟩

theorem solver_solves (calls : Calls F) : Solves { calls with linearAssignment := solver } := by
  intro dists rows cols thresh assignment ends
  have ended : ∃ assignment, Ends (linearAssignmentRows dists rows cols thresh)
      (fun result => result = some assignment) := ⟨assignment, ends⟩
  obtain ⟨result, chosen, same⟩ := ended.choose_spec.same ends
  change solver dists rows cols thresh = assignment
  rw [solver, dif_pos ended]
  exact Option.some.inj (chosen.symm.trans same)

end model

attribute [local instance] Arithmetic.ofField

variable {K : Type} [Field K] [LinearOrder K] [IsStrictOrderedRing K] {calls : Calls K}

/-- The matches of a matrix with rows and columns are a cheapest matching. -/
theorem Solves.wide (solves : Solves calls) {dists : List (List K)} {rows cols : Nat} {thresh : K}
    (solvable : Solvable dists thresh) (some : 0 < rows ∧ 0 < cols) (high : dists.length = rows)
    (wide : ∀ row ∈ dists, row.length = cols) :
    ∃ pairs, (calls.linearAssignment dists rows cols thresh).matched = positions pairs ∧
      Cheapest (matrixOf dists rows cols) (thresh / 2) pairs := by
  have width : (dists.head?).elim 0 List.length = cols := by
    cases dists with
    | nil => exact absurd high some.1.ne
    | cons row rest => exact wide row List.mem_cons_self
  have bounds : ∀ (i : Fin rows) (j : Fin cols), 0 ≤ matrixOf dists rows cols i j ∧ matrixOf dists rows cols i j ≤ 1 :=
    matrixOf_bounds solvable.bounds
  have ended := linearAssignment_ends some solvable.limit bounds
  obtain ⟨result, ⟨lap, places, returned, reads, cheapest⟩, bound, ends⟩ := ended
  have solved : calls.linearAssignment dists rows cols thresh = lap.collect := by
    apply solves
    unfold linearAssignmentRows
    rw [width, high]
    exact ⟨result, returned, bound, ends⟩
  rw [solved]
  exact ⟨corner places, reads.matched, cheapest⟩

/-! ### The matrices of `update` -/

/-- The thresholds of the second and the third round. -/
theorem rounds_limits : (0 < (1 / 2 : K) ∧ (1 / 2 : K) ≤ 1) ∧ 0 < (7 / 10 : K) ∧ (7 / 10 : K) ≤ 1 := by
  change (0 < 1 / ((2 : Nat) : K) ∧ 1 / ((2 : Nat) : K) ≤ 1) ∧
    0 < ((7 : Nat) : K) / ((10 : Nat) : K) ∧ ((7 : Nat) : K) / ((10 : Nat) : K) ≤ 1
  norm_num

open Classical in
/-- The solver, kept from what it was not proved right for. -/
noncomputable def Calls.guarded (calls : Calls K) : Calls K :=
  { calls with linearAssignment := fun dists rows cols thresh =>
      if Solvable dists thresh then calls.linearAssignment dists rows cols thresh else diagonal rows cols }

theorem Solves.partitions (solves : Solves calls) : Partitions calls.guarded := by
  intro dists rows cols thresh shaped
  simp only [Calls.guarded]
  split
  next solvable =>
    obtain ⟨result, ⟨assignment, rfl, partition⟩, ends⟩ := linearAssignmentRows_ends solvable shaped
    rw [solves dists rows cols thresh assignment ⟨_, rfl, ends⟩]
    exact partition
  next => exact diagonal_isPartition rows cols

theorem associate_guarded {thresh : K} (limit : 0 < thresh ∧ thresh ≤ 1) (store : Vectors (STrack K))
    (rows : List Pointer) (detections : List (Detection K)) :
    associate calls.guarded thresh store rows detections = associate calls thresh store rows detections := by
  have solvable := iouDistance_solvable (deref store rows) (detections.map Detection.strack) limit
  simp only [associate, Calls.guarded, if_pos solvable]

section rounds

variable {tracker : Tracker K} (limit : 0 < tracker.matchThresh ∧ tracker.matchThresh ≤ 1) (objects : List (Object K))

include limit

theorem firstRound_guarded : firstRound calls.guarded objects tracker = firstRound calls objects tracker :=
  associate_guarded limit _ _ _

theorem afterFirst_guarded : afterFirst calls.guarded objects tracker = afterFirst calls objects tracker := by
  unfold afterFirst
  rw [firstRound_guarded limit]
  rfl

theorem secondRound_guarded : secondRound calls.guarded objects tracker = secondRound calls objects tracker := by
  unfold secondRound rTrackedStracks
  rw [afterFirst_guarded limit, firstRound_guarded limit]
  exact associate_guarded rounds_limits.1 _ _ _

theorem afterSecond_guarded : afterSecond calls.guarded objects tracker = afterSecond calls objects tracker := by
  unfold afterSecond
  rw [secondRound_guarded limit, afterFirst_guarded limit]
  rfl

theorem thirdRound_guarded : thirdRound calls.guarded objects tracker = thirdRound calls objects tracker := by
  unfold thirdRound
  rw [afterSecond_guarded limit, firstRound_guarded limit]
  exact associate_guarded rounds_limits.2 _ _ _

theorem afterThird_guarded : afterThird calls.guarded objects tracker = afterThird calls objects tracker := by
  unfold afterThird
  rw [thirdRound_guarded limit, afterSecond_guarded limit]
  rfl

theorem update_guarded (fps numFrames count : Int) :
    update calls.guarded objects fps numFrames count tracker = update calls objects fps numFrames count tracker := by
  unfold update
  rw [afterThird_guarded limit, thirdRound_guarded limit]
  rfl

end rounds

/-! ### Runs -/

variable {start process : Process K}

omit [IsStrictOrderedRing K] in
theorem update_matchThresh (objects : List (Object K)) (fps numFrames count : Int) (tracker : Tracker K) :
    (update calls objects fps numFrames count tracker).tracker.matchThresh = tracker.matchThresh := rfl

/-- The guard is never felt, and no call changes the threshold. -/
theorem step_guarded {thresh : K} (limit : 0 < thresh ∧ thresh ≤ 1) : Simulates (step calls) (step calls.guarded)
    fun process other => process = other ∧ process.tracker.matchThresh = thresh := by
  rintro event process next other ⟨rfl, same⟩ taken
  refine ⟨[event], next, ?_, rfl, ?_⟩
  · have answered : step calls.guarded event process = some next := by
      cases event with
      | update objects fps numFrames =>
        rw [← taken]
        simp only [step, update_guarded (same ▸ limit)]
      | nextId => exact taken
    rw [run_cons, answered]
    rfl
  · cases event with
    | update objects fps numFrames =>
      cases taken
      exact (update_matchThresh ..).trans same
    | nextId =>
      cases taken
      exact same

/-! ### The rounds -/

/-- The distance of a track and a detection. -/
def distance (store : Vectors (STrack K)) (rows : List Pointer) (detections : List (Detection K)) :
    Matrix (Fin rows.length) (Fin detections.length) K :=
  .of fun i j => (store.get? rows[i]).elim 1 fun track => 1 - iou track.tlbr detections[j].strack.tlbr

/-- What a round of matching achieves: its matches are a cheapest partial matching, where a track or a
detection left alone costs half the threshold, and it passes on what it did not match. -/
structure Optimal (thresh : K) (store : Vectors (STrack K)) (rows : List Pointer) (detections : List (Detection K))
    (round : Association K) : Prop where
  matched : ∃ pairs : List (Fin rows.length × Fin detections.length),
    round.matched = pairs.map (fun pair => (rows[pair.1], detections[pair.2])) ∧
      Cheapest (distance store rows detections) (thresh / 2) pairs
  tracks : (round.matched.map Prod.fst ++ round.uTrack).Perm rows
  detections : (round.matched.map Prod.snd ++ round.uDetection).Perm detections

omit [Field K] [LinearOrder K] [IsStrictOrderedRing K] in
theorem deref_getElem? {store : Vectors (STrack K)} {rows : List Pointer}
    (there : ∀ pointer ∈ rows, (store.get? pointer).isSome) (i : Nat) :
    (deref store rows)[i]? = rows[i]?.bind store.get? := by
  induction rows generalizing i with
  | nil => rfl
  | cons pointer rows ih =>
    obtain ⟨track, found⟩ := Option.isSome_iff_exists.mp (there pointer List.mem_cons_self)
    have rest := ih fun other member => there other (List.mem_cons_of_mem _ member)
    have split : deref store (pointer :: rows) = track :: deref store rows := List.filterMap_cons_some found
    cases i with
    | zero => rw [split, List.getElem?_cons_zero, List.getElem?_cons_zero, Option.bind_some, found]
    | succ i => rw [split, List.getElem?_cons_succ, List.getElem?_cons_succ, rest]

omit [IsStrictOrderedRing K] in
theorem entry_iouDistance (atracks btracks : List (STrack K)) (n k : Nat) :
    entry (iouDistance atracks btracks) n k =
      atracks[n]?.bind fun a => btracks[k]?.map fun b => 1 - iou a.tlbr b.tlbr := by
  have scored := entry_ious (atracks.map STrack.tlbr) (btracks.map STrack.tlbr) n k
  have mapped : entry (iouDistance atracks btracks) n k =
      (entry (ious (atracks.map STrack.tlbr) (btracks.map STrack.tlbr)) n k).map (1 - ·) := by
    unfold entry iouDistance
    rw [List.getElem?_map]
    cases (ious (atracks.map STrack.tlbr) (btracks.map STrack.tlbr))[n]? with
    | none => rfl
    | some row => exact List.getElem?_map ..
  rw [mapped, scored, List.getElem?_map, List.getElem?_map]
  cases atracks[n]? with
  | none => rfl
  | some a => cases btracks[k]? <;> rfl

omit [IsStrictOrderedRing K] in
theorem matrixOf_distance {store : Vectors (STrack K)} {rows : List Pointer} {detections : List (Detection K)}
    (there : ∀ pointer ∈ rows, (store.get? pointer).isSome) :
    matrixOf (iouDistance (deref store rows) (detections.map Detection.strack)) rows.length detections.length =
      distance store rows detections := by
  ext i j
  obtain ⟨track, found⟩ := Option.isSome_iff_exists.mp (there _ (List.getElem_mem i.isLt))
  have row : rows[i.val]? = some rows[i.val] := List.getElem?_eq_getElem i.isLt
  have col : detections[j.val]? = some detections[j.val] := List.getElem?_eq_getElem j.isLt
  simp only [matrixOf, distance, Matrix.of_apply, entry_iouDistance, deref_getElem? there, List.getElem?_map, row, col,
    Option.bind_some, found, Option.map_some, Option.getD_some, Fin.getElem_fin, Option.elim_some]

theorem pairs_positions {α β : Type} {rows : List α} {cols : List β}
    (chosen : List (Fin rows.length × Fin cols.length)) :
    Matching.pairs rows cols (positions chosen) = chosen.map fun pair => (rows[pair.1], cols[pair.2]) := by
  rw [Matching.pairs, positions, List.filterMap_map]
  induction chosen with
  | nil => rfl
  | cons pair rest ih =>
    rw [List.map_cons, ← ih]
    apply List.filterMap_cons_some
    simp

omit [IsStrictOrderedRing K] in
/-- Where there are no tracks or no detections. -/
theorem cheapest_nil {rows cols : Nat} (cost : Matrix (Fin rows) (Fin cols) K) (alone : K)
    (none : rows = 0 ∨ cols = 0) : Cheapest cost alone [] := by
  refine ⟨⟨List.nodup_nil, List.nodup_nil⟩, fun other _ => ?_⟩
  cases other with
  | nil => exact le_rfl
  | cons pair rest =>
    have row := pair.1.isLt
    have col := pair.2.isLt
    omega

theorem associate_optimal (solves : Solves calls) {thresh : K} (limit : 0 < thresh ∧ thresh ≤ 1)
    {store : Vectors (STrack K)} {rows : List Pointer} (detections : List (Detection K))
    (there : ∀ pointer ∈ rows, (store.get? pointer).isSome) :
    Optimal thresh store rows detections (associate calls thresh store rows detections) := by
  have solvable := iouDistance_solvable (deref store rows) (detections.map Detection.strack) limit
  have shaped := iouDistance_shaped (deref store rows) (detections.map Detection.strack)
  rw [deref_length there, List.length_map] at shaped
  have perm := associate_perm solves.partitions thresh detections there
  rw [associate_guarded limit] at perm
  refine ⟨?_, perm.1, perm.2⟩
  by_cases some : 0 < rows.length ∧ 0 < detections.length
  · rcases shaped with ⟨_, none⟩ | ⟨high, wide⟩
    · omega
    · obtain ⟨pairs, matched, cheapest⟩ := solves.wide solvable some high wide
      rw [matrixOf_distance there] at cheapest
      refine ⟨pairs, ?_, cheapest⟩
      rw [← pairs_positions, ← matched]
      rfl
  · have none : rows.length = 0 ∨ detections.length = 0 := by omega
    refine ⟨[], ?_, cheapest_nil _ _ none⟩
    rcases none with noRows | noCols
    · have few := perm.1.length_eq
      rw [noRows, List.length_append, List.length_map] at few
      exact List.eq_nil_of_length_eq_zero (by omega)
    · have few := perm.2.length_eq
      rw [noCols, List.length_append, List.length_map] at few
      exact List.eq_nil_of_length_eq_zero (by omega)

/-- The rounds of a call. -/
structure Rounds (calls : Calls K) (objects : List (Object K)) (tracker : Tracker K) : Prop where
  first : Optimal tracker.matchThresh tracker.predicted tracker.pool
    ((detect objects).filter fun detection => tracker.trackThresh ≤ detection.strack.score)
    (firstRound calls objects tracker)
  second : Optimal (1 / 2) (afterFirst calls objects tracker).1 (rTrackedStracks calls objects tracker)
    ((detect objects).filter fun detection => ¬tracker.trackThresh ≤ detection.strack.score)
    (secondRound calls objects tracker)
  third : Optimal (7 / 10) (afterSecond calls objects tracker).1 (tracker.pointers false)
    (firstRound calls objects tracker).uDetection (thirdRound calls objects tracker)

theorem Valid.rounds {tracker : Tracker K} {count : Int} (valid : Valid tracker count) (solves : Solves calls)
    (limit : 0 < tracker.matchThresh ∧ tracker.matchThresh ≤ 1) (objects : List (Object K)) :
    Rounds calls objects tracker where
  first := by
    apply associate_optimal solves limit
    intro pointer member
    rw [valid.predicted_isSome, ← mem_all]
    exact valid.pool_sublist.subset member
  second := by
    apply associate_optimal solves rounds_limits.1
    intro pointer member
    have pooled : pointer ∈ tracker.pool := by
      have perm := (valid.firstRound_perm solves.partitions objects).1
      rw [firstRound_guarded limit] at perm
      exact perm.subset (List.mem_append_right _ (List.mem_filter.mp member).1)
    simp only [afterFirst, visitAll_isSome, valid.predicted_isSome]
    rw [← mem_all]
    exact valid.pool_sublist.subset pooled
  third := by
    apply associate_optimal solves rounds_limits.2
    intro pointer member
    simp only [afterSecond, afterFirst, visitAll_isSome, valid.predicted_isSome]
    obtain ⟨index, track, rfl, there, _⟩ := mem_pointers.mp member
    exact Option.isSome_iff_exists.mpr ⟨track, there⟩

omit [IsStrictOrderedRing K] in
theorem Known.unique {process : Process K} (known : Known process) : Unique calls process where
  tracked := known.valid.tracked
  trackedIds := (List.nodup_append.mp known.valid.distinct).1
  lostIds := (List.nodup_append.mp known.valid.distinct).2.1
  disjoint := List.disjoint_of_nodup_append known.valid.distinct
  issued := known.held
  created objects fps numFrames := by
    refine ⟨newTracks_nodup, ?_⟩
    intro id member old
    obtain ⟨track, created, rfl⟩ := List.mem_map.mp member
    obtain ⟨pair, listed, rfl⟩ := List.mem_map.mp created
    have above := ((call_counted rfl).2 pair listed).1
    exact absurd (known.taken _ old) (not_le_of_gt above)

/-- The tracker with the solver of the source, in exact arithmetic and in every run, whatever the boxes,
the scores and the ids that other trackers take: identities are unique, every call accounts for
its objects, and each of its three rounds is a cheapest partial matching. -/
theorem solved_tracker {start process : Process K} (solves : Solves calls) (fresh : Fresh start)
    (limit : 0 < start.tracker.matchThresh ∧ start.tracker.matchThresh ≤ 1)
    (reached : Reachable (step calls) start process) :
    Unique calls process ∧ ∀ objects, Rounds calls objects process.tracker ∧ ∀ fps numFrames,
      Accounted objects process.tracker (update calls objects fps numFrames process.count process.tracker) := by
  obtain ⟨other, guarded, rfl, same⟩ := (step_guarded limit).reachable ⟨rfl, rfl⟩ reached
  have kept : 0 < process.tracker.matchThresh ∧ process.tracker.matchThresh ≤ 1 := by rwa [same]
  have known := reachable_known solves.partitions fresh guarded
  refine ⟨known.unique, ?_⟩
  intro objects
  refine ⟨known.valid.rounds solves kept objects, ?_⟩
  intro fps numFrames
  rw [← update_guarded kept]
  exact known.valid.accounted solves.partitions compares_ofField rfl

/-- An object is seen, missed and seen again. -/
theorem solved_tracker_sample : ∃ process,
    run (step { sampleCalls with linearAssignment := solver }) [seen 1, missed 2, .nextId, seen 3] sampleStart =
        some process ∧
      Unique { sampleCalls with linearAssignment := solver } process ∧
      Rounds { sampleCalls with linearAssignment := solver } [sampleObject] process.tracker := by
  have limit : 0 < sampleStart.tracker.matchThresh ∧ sampleStart.tracker.matchThresh ≤ 1 := by decide +kernel
  have solved := solved_tracker (solver_solves sampleCalls) sampleStart_fresh limit
    ⟨[seen 1, missed 2, .nextId, seen 3], rfl⟩
  exact ⟨_, rfl, solved.1, (solved.2 [sampleObject]).1⟩

end Yolov5Rknn.BYTETracker

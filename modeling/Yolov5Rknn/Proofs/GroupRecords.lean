import Yolov5Rknn.PostProcessGroup
import Yolov5Rknn.Proofs.NmsPasses
import Yolov5Rknn.Proofs.QuantisedFilter

/-! The records of `post_process` in exact arithmetic: each shows one survivor, decoded
from one cell, with a box inside the frame. -/

namespace Yolov5Rknn.PostProcess
open Program Truncation
open ByteTrackerWrapper (DetectResult objNumbMaxSize)

attribute [local instance] Arithmetic.ofField

section survivors

variable {K : Type} [LinearOrder K] {n : Nat} {candidates : Fin n → Candidate K} {order : Fin n → Int}
  {ranking : Equiv.Perm (Fin n)}

/-- The candidates of the ranks that are left. -/
def remaining (order : Fin n → Int) (ranking : Equiv.Perm (Fin n)) (ranks : List (Fin n)) : List (Fin n) :=
  (ranks.filter fun p => decide (order p ≠ -1)).map ranking

theorem remaining_nodup : (remaining order ranking (List.finRange n)).Nodup :=
  ((List.nodup_finRange n).filter _).map ranking.injective

theorem remaining_listed (indices : ∀ p, order p = -1 ∨ order p = (ranking p).val) :
    (List.ofFn order).filter (fun index => decide (index ≠ -1)) =
      (remaining order ranking (List.finRange n)).map fun c => (c.val : Int) := by
  rw [List.ofFn_eq_map, List.filter_map, remaining, List.map_map]
  refine List.map_congr_left fun p member => ?_
  exact (indices p).resolve_left (of_decide_eq_true (List.mem_filter.mp member).2)

theorem remaining_ranked
    (descends : ∀ p q, p ≤ q → (candidates (ranking q)).prob ≤ (candidates (ranking p)).prob) :
    (remaining order ranking (List.finRange n)).Pairwise fun c d => (candidates d).prob ≤ (candidates c).prob := by
  refine List.pairwise_map.mpr (List.Pairwise.filter _ ?_)
  exact (List.pairwise_lt_finRange n).imp fun before => descends _ _ before.le

end survivors

variable {K : Type} [Field K] [LinearOrder K] [FloorRing K] {request : Request K}

section loop

variable {n : Nat} {candidates : Fin n → Candidate K} {order : Fin n → Int} {ranking : Equiv.Perm (Fin n)}

/-- A record has the class id, the score and the box of a candidate. -/
def Written (request : Request K) (candidate : Candidate K) (result : DetectResult K) : Prop :=
  ∃ label, result = record truncate request candidate label candidate.prob

theorem writeRecords_end (labelled : ∀ c, ∃ id : Fin objClassNum, (candidates c).classId = id.val)
    (indices : ∀ p, order p = -1 ∨ order p = (ranking p).val) (ranks : List (Fin n)) (results : List (DetectResult K)) :
    Ends (ranks.foldlM (writeRecord truncate request candidates (sortedBy candidates ranking).input order) results)
      fun final => ∃ written, final = results ++ written ∧
        List.Forall₂ (fun c => Written request (candidates c))
          ((remaining order ranking ranks).take (objNumbMaxSize - results.length)) written := by
  induction ranks generalizing results with
  | nil => exact .pure ⟨[], (List.append_nil results).symm, by simp [remaining]⟩
  | cons p rest ih =>
    rw [List.foldlM_cons]
    by_cases gone : order p = -1
    · have skipped : remaining order ranking (p :: rest) = remaining order ranking rest := by simp [remaining, gone]
      rw [writeRecord, if_pos (.inl gone), pure_bind, skipped]
      exact ih results
    · have here := (indices p).resolve_left gone
      have next : remaining order ranking (p :: rest) = ranking p :: remaining order ranking rest := by
        simp [remaining, gone]
      by_cases full : results.length ≥ objNumbMaxSize
      · rw [writeRecord, if_pos (.inr full), pure_bind, next]
        refine (ih results).imp fun final ended => ?_
        rw [Nat.sub_eq_zero_of_le full] at ended ⊢
        exact ended
      · obtain ⟨id, class_eq⟩ := labelled (ranking p)
        rw [writeRecord, if_neg (not_or.mpr ⟨gone, full⟩), here, fetch_inside, pure_bind, class_eq, fetch_inside,
          pure_bind, pure_bind, next]
        refine (ih _).imp fun final ended => ?_
        obtain ⟨written, rfl, shown⟩ := ended
        have room : objNumbMaxSize - results.length = objNumbMaxSize - (results.length + 1) + 1 := by omega
        rw [List.length_append, List.length_singleton] at shown
        rw [room, List.take_succ_cons]
        exact ⟨_, List.append_assoc .., .cons ⟨_, rfl⟩ shown⟩

end loop

section candidates

theorem mem_cells {gridH gridW : Nat} {cell : Cell} (member : cell ∈ cells gridH gridW) :
    cell.i < gridH ∧ cell.j < gridW := by
  obtain ⟨a, _, inA⟩ := List.mem_flatMap.mp member
  obtain ⟨i, insideH, inI⟩ := List.mem_flatMap.mp inA
  obtain ⟨j, insideW, rfl⟩ := List.mem_map.mp inI
  exact ⟨List.mem_range.mp insideH, List.mem_range.mp insideW⟩

/-- A candidate is what one cell of one head decodes to. -/
theorem candidate_decoded {candidate : Candidate K} (member : candidate ∈ request.candidates truncate) :
    ∃ k cell, cell ∈ cells (request.head k).gridH (request.head k).gridW ∧
      candidate = (request.head k).candidate cell := by
  obtain ⟨k, _, pushed⟩ := List.mem_flatMap.mp member
  rw [process_eq] at pushed
  obtain ⟨cell, emitted, rfl⟩ := List.mem_map.mp pushed
  exact ⟨k, cell, (List.mem_filter.mp emitted).1, rfl⟩

theorem candidate_class {candidate : Candidate K} (member : candidate ∈ request.candidates truncate) :
    ∃ id : Fin objClassNum, candidate.classId = id.val := by
  obtain ⟨k, cell, _, rfl⟩ := candidate_decoded member
  exact ⟨⟨_, (maxClass_first _).inside⟩, rfl⟩

theorem anchors_nonneg (k : Fin 3) (a : Fin 6) : 0 ≤ (anchors k).getD a 0 := by
  revert k a
  decide

variable [IsStrictOrderedRing K]

/-- A box never has a negative width or height. -/
theorem box_extends (request : Request K) (k : Fin 3) (cell : Cell) :
    0 ≤ ((request.head k).box cell).w ∧ 0 ≤ ((request.head k).box cell).h := by
  have row := cell.a.isLt
  constructor
  · exact mul_nonneg (mul_self_nonneg _) (Int.cast_nonneg (anchors_nonneg k ⟨cell.a * 2, by omega⟩))
  · exact mul_nonneg (mul_self_nonneg _) (Int.cast_nonneg (anchors_nonneg k ⟨cell.a * 2 + 1, by omega⟩))

end candidates

section edges

variable [IsStrictOrderedRing K] {val val' scale : K} {size frame : Nat}

theorem clamp_eq (val : K) (size : Nat) : clamp truncate val 0 size = truncate (max 0 (min (size : K) val)) := by
  unfold clamp
  rw [Int.cast_zero, Int.cast_natCast]
  split
  · next above =>
    split
    · next below => rw [min_eq_right below.le, max_eq_right above.le]
    · next beyond => rw [min_eq_left (not_lt.mp beyond), max_eq_right (Nat.cast_nonneg size)]
  · next below => rw [max_eq_left ((min_le_right _ _).trans (not_lt.mp below))]

theorem clamp_mono (ordered : val ≤ val') : clamp truncate val 0 size ≤ clamp truncate val' 0 size := by
  rw [clamp_eq, clamp_eq]
  exact truncate_mono (max_le_max_left 0 (min_le_min_left _ ordered))

theorem clamp_bounds (val : K) (size : Nat) : 0 ≤ clamp truncate val 0 size ∧ clamp truncate val 0 size ≤ size := by
  rw [clamp_eq]
  constructor
  · rw [le_truncate_of_nonneg (le_max_left _ _), Int.cast_zero]
    exact le_max_left _ _
  · have upper : max 0 (min (size : K) val) ≤ ((size : Int) : K) := by
      rw [Int.cast_natCast]
      exact max_le (Nat.cast_nonneg size) (min_le_left _ _)
    have := truncate_mono upper
    rwa [truncate_intCast] at this

/-- Two edges of a box in the frame. -/
theorem edges_ordered (sized : 0 < size) (framed : 0 < frame) (scaled : scale = size / frame) (ordered : val ≤ val') :
    0 ≤ truncate ((clamp truncate val 0 size : K) / scale) ∧
      truncate ((clamp truncate val 0 size : K) / scale) ≤ truncate ((clamp truncate val' 0 size : K) / scale) ∧
      truncate ((clamp truncate val' 0 size : K) / scale) ≤ frame := by
  have large : (0 : K) < size := Nat.cast_pos.mpr sized
  have wide : (0 : K) < frame := Nat.cast_pos.mpr framed
  have positive : 0 < scale := scaled ▸ div_pos large wide
  have nonneg : 0 ≤ (clamp truncate val 0 size : K) / scale :=
    div_nonneg (Int.cast_nonneg (clamp_bounds val size).1) positive.le
  refine ⟨?_, ?_, ?_⟩
  · rw [le_truncate_of_nonneg nonneg, Int.cast_zero]
    exact nonneg
  · exact truncate_mono (div_le_div_of_nonneg_right (Int.cast_le.mpr (clamp_mono ordered)) positive.le)
  · have inside : ((clamp truncate val' 0 size : Int) : K) ≤ ((size : Int) : K) :=
      Int.cast_le.mpr (clamp_bounds val' size).2
    have upper : (clamp truncate val' 0 size : K) / scale ≤ ((frame : Int) : K) := by
      rw [Int.cast_natCast] at inside
      rw [div_le_iff₀ positive, Int.cast_natCast, scaled, mul_div_cancel₀ _ wide.ne']
      exact inside
    have := truncate_mono upper
    rwa [truncate_intCast] at this

end edges

section records

variable [IsStrictOrderedRing K]

/-- A record that shows a candidate inside a frame. -/
structure Shows (request : Request K) (frameW frameH : Nat) (candidate : Candidate K) (result : DetectResult K) :
    Prop where
  written : Written request candidate result
  /-- One cell of one head gives the box, the score and the class, the first of the
  greatest scores of the cell. -/
  decoded : ∃ k cell, cell ∈ cells (request.head k).gridH (request.head k).gridW ∧
    candidate = (request.head k).candidate cell ∧
    FirstGreatest (fun j => (request.head k).inPtr cell (5 + j)) objClassNum ((request.head k).maxClass cell)
  classId : 0 ≤ result.classId ∧ result.classId < objClassNum
  horizontal : 0 ≤ result.box.left ∧ result.box.left ≤ result.box.right ∧ result.box.right ≤ frameW
  vertical : 0 ≤ result.box.top ∧ result.box.top ≤ result.box.bottom ∧ result.box.bottom ≤ frameH

variable {frameW frameH : Nat}

theorem written_shows (sized : 0 < request.modelInW ∧ 0 < request.modelInH) (framed : 0 < frameW ∧ 0 < frameH)
    (scaled : request.scaleW = request.modelInW / frameW ∧ request.scaleH = request.modelInH / frameH)
    {candidate : Candidate K} (member : candidate ∈ request.candidates truncate) {result : DetectResult K}
    (written : Written request candidate result) : Shows request frameW frameH candidate result := by
  obtain ⟨k, cell, inside, rfl⟩ := candidate_decoded member
  have first := maxClass_first fun j => (request.head k).inPtr cell (5 + j)
  have grown := box_extends request k cell
  refine ⟨written, ⟨k, cell, inside, rfl, first⟩, ?_, ?_, ?_⟩
  all_goals obtain ⟨label, rfl⟩ := written
  · exact ⟨Int.natCast_nonneg _, Int.ofNat_lt.mpr first.inside⟩
  · exact edges_ordered sized.1 framed.1 scaled.1 (le_add_of_nonneg_right grown.1)
  · exact edges_ordered sized.2 framed.2 scaled.2 (le_add_of_nonneg_right grown.2)

/-- The group has a record for each of the first 64 candidates that survive the passes, in
the order of their scores; it shows that candidate, inside the frame. -/
theorem records_show_survivors (request : Request K) (frameW frameH : Nat)
    (sized : 0 < request.modelInW ∧ 0 < request.modelInH) (framed : 0 < frameW ∧ 0 < frameH)
    (scaled : request.scaleW = request.modelInW / frameW ∧ request.scaleH = request.modelInH / frameH) :
    ∃ (order : Fin (request.candidates truncate).length → Int)
      (survivors : List (Fin (request.candidates truncate).length)),
      Ends (surviving (request.candidates truncate).get request.nmsThreshold) (fun result => result = order) ∧
      (List.ofFn order).filter (fun index => decide (index ≠ -1)) = survivors.map (fun c => (c.val : Int)) ∧
      survivors.Nodup ∧
      survivors.Pairwise (fun c d =>
        ((request.candidates truncate).get d).prob ≤ ((request.candidates truncate).get c).prob) ∧
      Ends (postProcess truncate request) fun group => group.results.length = min objNumbMaxSize survivors.length ∧
        List.Forall₂ (fun c => Shows request frameW frameH ((request.candidates truncate).get c))
          (survivors.take objNumbMaxSize) group.results := by
  obtain ⟨ranking, order, descends, sorts, passes, indices, _⟩ :=
    passes_end (request.candidates truncate).get request.nmsThreshold
  refine ⟨order, remaining order ranking (List.finRange _), surviving_ends sorts passes, remaining_listed indices,
    remaining_nodup, remaining_ranked descends, ?_⟩
  have shown {written : List (DetectResult K)} (all : List.Forall₂
      (fun c => Written request ((request.candidates truncate).get c))
      ((remaining order ranking (List.finRange _)).take objNumbMaxSize) written) :
      written.length = min objNumbMaxSize (remaining order ranking (List.finRange _)).length ∧
        List.Forall₂ (fun c => Shows request frameW frameH ((request.candidates truncate).get c))
          ((remaining order ranking (List.finRange _)).take objNumbMaxSize) written :=
    ⟨all.length_eq.symm.trans List.length_take,
      all.imp fun c result => written_shows sized framed scaled (List.get_mem _ _)⟩
  unfold postProcess
  dsimp only
  split
  · next none =>
    have empty : remaining order ranking (List.finRange _) = [] :=
      List.eq_nil_iff_forall_not_mem.mpr fun c _ => absurd c.isLt (by omega)
    refine .pure (shown ?_)
    rw [empty]
    exact .nil
  · refine sorts.bind fun sorted same => ?_
    rw [same]
    refine passes.bind fun result same => ?_
    rw [same]
    refine (writeRecords_end (fun c => candidate_class (List.get_mem _ _)) indices _ []).bind
      fun final ended => .pure ?_
    obtain ⟨written, rfl, all⟩ := ended
    exact shown all

end records

/-- A model of 8 by 8 pixels on a frame of 16 by 16; its only cell of stride 8 is taken by
one object. -/
def sampleRequest : Request ℚ where
  input k := if k.val = 0 then sampleHead.input else fun _ => 0
  modelInH := 8
  modelInW := 8
  confThreshold := 1 / 5
  nmsThreshold := 45 / 100
  pads := ⟨0, 0, 0, 0⟩
  scaleW := 1 / 2
  scaleH := 1 / 2
  qntZps _ := 0
  qntScales _ := 1 / 10
  labels _ := [99, 97, 114]

/-- Two cells of stride 8: two anchors see an object in the first, one sees another in the second. -/
def severalRequest : Request ℚ :=
  { sampleRequest with
    input := fun k position => if k.val = 0 then (List.lookup position values).getD 0 else 0
    modelInW := 16
    nmsThreshold := 1 / 4 }
where
  values : List (Nat × Int8) :=
    [(0, 5), (2, 5), (4, 5), (6, 5), (8, 2), (10, 10), (1, 5), (3, 5), (5, 5), (7, 5), (9, 9), (13, 10), (170, 5),
      (172, 5), (174, 5), (176, 5), (178, 5), (180, 8)]

theorem records_show_survivors_sample :
    (severalRequest.candidates truncate).map Candidate.prob = [2 / 10, 9 / 10, 4 / 10] ∧
      ∃ survivors : List (Fin (severalRequest.candidates truncate).length),
        survivors.Pairwise (fun c d =>
          ((severalRequest.candidates truncate).get d).prob ≤ ((severalRequest.candidates truncate).get c).prob) ∧
        Ends (postProcess truncate severalRequest) fun group =>
          List.Forall₂ (fun c => Shows severalRequest 32 16 ((severalRequest.candidates truncate).get c))
            (survivors.take objNumbMaxSize) group.results := by
  obtain ⟨_, survivors, _, _, _, descends, returned⟩ :=
    records_show_survivors severalRequest 32 16 (by decide) (by decide) (by decide +kernel)
  exact ⟨by decide +kernel, survivors, descends, returned.imp fun _ ended => ended.2⟩

end Yolov5Rknn.PostProcess

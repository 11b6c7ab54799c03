import Yolov5Rknn.DeepSortTracker
import Yolov5Rknn.Proofs.MunkresPairs
import Mathlib.Data.List.Perm.Basic

/-! Association in DeepSort loses and doubles nothing: every stage divides the tracks and
the detections it is given into matched and unmatched ones. No property of the numbers
is used. -/

namespace Yolov5Rknn.DeepSort
open Program Assignment

/-- Every track and every detection is matched or unmatched, once. -/
structure Partitions {tracks detections : Nat} (res : TracherMatchd tracks detections)
    (trackIndices : List (Fin tracks)) (detectionIndices : List (Fin detections)) : Prop where
  tracks : (res.matched.map Prod.fst ++ res.unmatchedTracks).Perm trackIndices
  detections : (res.matched.map Prod.snd ++ res.unmatchedDetections).Perm detectionIndices

theorem missing_perm {n : Nat} {listed : List (Fin n)} (distinct : listed.Nodup) :
    (listed ++ (List.finRange n).filter fun position => decide (position ∉ listed)).Perm (List.finRange n) := by
  have apart : (listed ++ (List.finRange n).filter fun position => decide (position ∉ listed)).Nodup := by
    refine List.nodup_append.mpr ⟨distinct, (List.nodup_finRange n).filter _, ?_⟩
    intro position member other filtered same
    subst same
    simp [member] at filtered
  refine (List.perm_ext_iff_of_nodup apart (List.nodup_finRange n)).mpr fun position => ?_
  by_cases member : position ∈ listed <;> simp [member]

theorem split_perm {α : Type} (p : α → Bool) (items : List α) :
    (items.filter (!p ·) ++ items.filter p).Perm items :=
  List.perm_append_comm.trans (List.filter_append_perm p items)

namespace LinearAssignment

variable {F : Type} [Arithmetic F] {tracks detections : Nat}
variable {trackIndices : List (Fin tracks)} {detectionIndices : List (Fin detections)}

/-- One side of `collect`: what is accepted, what is missing and what is rejected. -/
theorem collect_side {α β : Type} {positions : List β} (side : α → Fin positions.length) {indices : List α}
    (distinct : (indices.map side).Nodup) (above : α → Bool) :
    ((indices.filter (!above ·)).map (fun index => positions.get (side index)) ++
      (((List.finRange positions.length).filter fun position => decide (position ∉ indices.map side)).map
          positions.get ++
        (indices.filter above).map fun index => positions.get (side index))).Perm positions := by
  have whole := (missing_perm distinct).map positions.get
  rw [List.map_get_finRange] at whole
  refine List.Perm.trans ?_ whole
  rw [List.map_append, List.map_map]
  have split := (split_perm above indices).map (positions.get ∘ side)
  rw [List.map_append] at split
  refine List.Perm.trans ?_ (split.append_right _)
  rw [List.append_assoc]
  exact List.Perm.append_left _ List.perm_append_comm

theorem collect_partitions {indices : List (Fin trackIndices.length × Fin detectionIndices.length)}
    (pairing : Pairing indices) (maxDistance : F)
    (costMatrix : Matrix (Fin trackIndices.length) (Fin detectionIndices.length) F) :
    Partitions (collect maxDistance trackIndices detectionIndices costMatrix indices)
      trackIndices detectionIndices := by
  constructor
  · have side := collect_side Prod.fst pairing.distinctRows
      fun index => decide (maxDistance < costMatrix index.1 index.2)
    simpa [collect, Function.comp_def] using side
  · have side := collect_side Prod.snd pairing.distinctCols
      fun index => decide (maxDistance < costMatrix index.1 index.2)
    simpa [collect, Function.comp_def] using side

variable {infinite : F → Bool} {metric : GatedMetricFunc F tracks detections} {maxDistance : F}
variable {rounds : Nat}

theorem minCostMatching_partitions {res : TracherMatchd tracks detections}
    (returned : minCostMatching infinite metric maxDistance trackIndices detectionIndices rounds = .ok res) :
    Partitions res trackIndices detectionIndices := by
  unfold minCostMatching at returned
  split at returned
  · obtain rfl := pure_result.mp returned
    exact ⟨.refl _, .refl _⟩
  · next some =>
    obtain ⟨costMatrix, _, remaining⟩ := bind_result.mp returned
    obtain ⟨indices, solved, finished⟩ := bind_result.mp remaining
    obtain rfl := pure_result.mp finished
    have inside : 0 < trackIndices.length ∧ 0 < detectionIndices.length := by
      rw [List.length_pos_iff, List.length_pos_iff]
      tauto
    have pairing := (HungarianOper.solve_pairing infinite (clip maxDistance costMatrix) inside).result solved
    exact collect_partitions pairing maxDistance _

/-- The cascade after its levels below `level`. -/
structure Descended (timeSinceUpdate : Fin tracks → Int) (trackIndices : List (Fin tracks)) (level : Nat)
    (found : List (Fin tracks × Fin detections) × List (Fin detections)) : Prop where
  distinct : (found.1.map Prod.fst).Nodup
  listed : ∀ tid ∈ found.1.map Prod.fst, tid ∈ trackIndices ∧ timeSinceUpdate tid ≤ level
  detections : (found.1.map Prod.snd ++ found.2).Perm (List.finRange detections)

variable {timeSinceUpdate : Fin tracks → Int}

theorem cascadeLevel_descends {level : Nat}
    {found next : List (Fin tracks × Fin detections) × List (Fin detections)}
    (distinct : trackIndices.Nodup) (descended : Descended timeSinceUpdate trackIndices level found)
    (returned : cascadeLevel infinite metric maxDistance timeSinceUpdate trackIndices found level rounds = .ok next) :
    Descended timeSinceUpdate trackIndices (level + 1) next := by
  unfold cascadeLevel at returned
  split at returned
  · obtain rfl := pure_result.mp returned
    refine ⟨descended.distinct, fun tid member => ?_, descended.detections⟩
    obtain ⟨inside, young⟩ := descended.listed tid member
    exact ⟨inside, young.trans (by simp)⟩
  · obtain ⟨tmp, matched, finished⟩ := bind_result.mp returned
    obtain rfl := pure_result.mp finished
    have partitioned := minCostMatching_partitions matched
    have ofLevel : ∀ tid ∈ tmp.matched.map Prod.fst, tid ∈ trackIndices ∧ timeSinceUpdate tid = 1 + level := by
      intro tid member
      have inside := partitioned.tracks.subset (List.mem_append_left _ member)
      simpa using List.mem_filter.mp inside
    refine ⟨?_, ?_, ?_⟩
    · rw [List.map_append]
      have fresh := partitioned.tracks.nodup_iff.mpr (distinct.filter _)
      refine List.nodup_append.mpr ⟨descended.distinct, (List.nodup_append.mp fresh).1, ?_⟩
      intro tid old other new same
      subst same
      have := (descended.listed tid old).2
      have := (ofLevel tid new).2
      omega
    · intro tid member
      rw [List.map_append] at member
      obtain old | new := List.mem_append.mp member
      · obtain ⟨inside, young⟩ := descended.listed tid old
        exact ⟨inside, young.trans (by simp)⟩
      · obtain ⟨inside, same⟩ := ofLevel tid new
        refine ⟨inside, ?_⟩
        push_cast
        omega
    · rw [List.map_append, List.append_assoc]
      exact (List.Perm.append_left _ partitioned.detections).trans descended.detections

theorem matchingCascade_partitions {cascadeDepth : Int} {res : TracherMatchd tracks detections}
    (distinct : trackIndices.Nodup)
    (returned : matchingCascade infinite metric maxDistance cascadeDepth timeSinceUpdate trackIndices rounds = .ok res) :
    Partitions res trackIndices (List.finRange detections) := by
  obtain ⟨found, folded, finished⟩ := bind_result.mp returned
  rw [List.range_eq_range'] at folded
  have run := foldlM_result
    (fun rest found => ∃ level count, rest = List.range' level count ∧
      Descended timeSinceUpdate trackIndices level found)
    ?_ ⟨0, _, rfl, by simp, by simp, by simp⟩ folded
  · obtain rfl := pure_result.mp finished
    obtain ⟨level, _, _, descended⟩ := run
    refine ⟨?_, descended.detections⟩
    have all : (found.1.map Prod.fst ++ trackIndices.filter fun tid => decide (tid ∉ found.1.map Prod.fst)).Nodup := by
      refine List.nodup_append.mpr ⟨descended.distinct, distinct.filter _, ?_⟩
      intro tid member other filtered same
      subst same
      simpa [member] using List.mem_filter.mp filtered
    refine (List.perm_ext_iff_of_nodup all distinct).mpr fun tid => ?_
    by_cases member : tid ∈ found.1.map Prod.fst
    · simp only [List.mem_append, member, true_or, true_iff]
      exact (descended.listed tid member).1
    · simp only [List.mem_append, member, false_or, List.mem_filter, not_false_eq_true, decide_true, and_true]
  · intro current rest state next ⟨level, count, same, descended⟩ taken
    cases count with
    | zero => cases same
    | succ count =>
      obtain ⟨rfl, rfl⟩ := List.cons.inj same
      exact ⟨current + 1, count, rfl, cascadeLevel_descends distinct descended taken⟩

end LinearAssignment

namespace Tracker

variable {F : Type} {tracker : Tracker F} {rounds : Nat}

theorem confirmed_perm (tracker : Tracker F) :
    (tracker.confirmedTracks ++ tracker.unconfirmedTracks).Perm (List.finRange tracker.tracks.length) :=
  List.filter_append_perm _ _

variable [Arithmetic F]

theorem matchWith_partitions {detections : Nat} {infinite : F → Bool}
    {gated iou : GatedMetricFunc F tracker.tracks.length detections}
    {res : TracherMatchd tracker.tracks.length detections}
    (returned : matchWith infinite tracker gated iou rounds = .ok res) :
    Partitions res (List.finRange tracker.tracks.length) (List.finRange detections) := by
  obtain ⟨matcha, cascaded, remaining⟩ := bind_result.mp returned
  obtain ⟨matchb, matched, finished⟩ := bind_result.mp remaining
  obtain rfl := pure_result.mp finished
  have first : Partitions matcha tracker.confirmedTracks (List.finRange detections) :=
    LinearAssignment.matchingCascade_partitions ((List.nodup_finRange _).filter _) cascaded
  have second := LinearAssignment.minCostMatching_partitions matched
  constructor
  · have moved := split_perm
      (fun idx => decide ((tracker.tracks.get idx).timeSinceUpdate = 1)) matcha.unmatchedTracks
    refine List.Perm.trans ?_ (confirmed_perm tracker)
    rw [List.perm_iff_count]
    intro idx
    have one := first.tracks.count_eq idx
    have two := second.tracks.count_eq idx
    have three := moved.count_eq idx
    simp only [List.count_append, List.map_append] at one two three ⊢
    omega
  · rw [List.map_append, List.append_assoc]
    exact (List.Perm.append_left _ second.detections).trans first.detections

end Tracker
end Yolov5Rknn.DeepSort

import Yolov5Rknn.Proofs.AssociationPartition
import Yolov5Rknn.Logic.WithNaN
import Mathlib.Data.Rat.Sqrt

/-! What a match says about its costs when a cost may be no number: the last test of
`min_cost_matching` rejects what is above the bound, so it lets such a cost through. Only
the pairs of the tracks and the detections a round is asked for have a cost. -/

namespace Yolov5Rknn.DeepSort
open Program Assignment

namespace LinearAssignment

section accepted

variable {F : Type} [Arithmetic F] {tracks detections : Nat}

/-- The cost of a pair does not depend on the pairs asked for with it. -/
def Pointwise (metric : GatedMetricFunc F tracks detections) (cost : Fin tracks → Fin detections → F) : Prop :=
  ∀ trackIndices detectionIndices rounds costMatrix,
    metric trackIndices detectionIndices rounds = .ok costMatrix →
      ∀ row col, costMatrix row col = cost (trackIndices.get row) (detectionIndices.get col)

/-- A cost the last test of `min_cost_matching` lets through after the clipping. -/
def Accepted (maxDistance cost : F) : Prop :=
  ¬maxDistance < if maxDistance < cost then maxDistance + 1 / 100000 else cost

variable {infinite : F → Bool} {metric : GatedMetricFunc F tracks detections} {maxDistance : F}
variable {cost : Fin tracks → Fin detections → F} {rounds : Nat}
variable {trackIndices : List (Fin tracks)} {detectionIndices : List (Fin detections)}
variable {res : TracherMatchd tracks detections}

theorem minCostMatching_accepted (pointwise : Pointwise metric cost)
    (returned : minCostMatching infinite metric maxDistance trackIndices detectionIndices rounds = .ok res) :
    ∀ pair ∈ res.matched, pair.1 ∈ trackIndices ∧ pair.2 ∈ detectionIndices ∧
      Accepted maxDistance (cost pair.1 pair.2) := by
  unfold minCostMatching at returned
  split at returned
  · obtain rfl := pure_result.mp returned
    simp
  · obtain ⟨costMatrix, computed, remaining⟩ := bind_result.mp returned
    obtain ⟨indices, _, finished⟩ := bind_result.mp remaining
    obtain rfl := pure_result.mp finished
    intro pair member
    obtain ⟨index, kept, rfl⟩ := List.mem_map.mp member
    have below := (List.mem_filter.mp kept).2
    rw [Bool.not_eq_true', decide_eq_false_iff_not] at below
    refine ⟨List.get_mem _ _, List.get_mem _ _, ?_⟩
    rw [Accepted, ← pointwise _ _ _ _ computed]
    exact below

/-- The solver pairs off the shorter side, and the last test decides about its pairs. -/
theorem minCostMatching_pairing (pointwise : Pointwise metric cost) (rows : trackIndices ≠ [])
    (cols : detectionIndices ≠ [])
    (returned : minCostMatching infinite metric maxDistance trackIndices detectionIndices rounds = .ok res) :
    ∃ pairs : List (Fin trackIndices.length × Fin detectionIndices.length), Pairing pairs ∧ ∀ pair ∈ pairs,
      Accepted maxDistance (cost (trackIndices.get pair.1) (detectionIndices.get pair.2)) →
        (trackIndices.get pair.1, detectionIndices.get pair.2) ∈ res.matched := by
  unfold minCostMatching at returned
  rw [if_neg (not_or.mpr ⟨cols, rows⟩)] at returned
  obtain ⟨costMatrix, computed, remaining⟩ := bind_result.mp returned
  obtain ⟨indices, solved, finished⟩ := bind_result.mp remaining
  obtain rfl := pure_result.mp finished
  have inside : 0 < trackIndices.length ∧ 0 < detectionIndices.length :=
    ⟨List.length_pos_iff.mpr rows, List.length_pos_iff.mpr cols⟩
  refine ⟨indices, (HungarianOper.solve_pairing infinite _ inside).result solved, fun pair member accepted => ?_⟩
  rw [Accepted, ← pointwise _ _ _ _ computed] at accepted
  refine List.mem_map.mpr ⟨pair, List.mem_filter.mpr ⟨member, ?_⟩, rfl⟩
  rw [Bool.not_eq_true', decide_eq_false_iff_not]
  exact accepted

/-! ### The levels of the cascade -/

variable (infinite metric maxDistance) (timeSinceUpdate : Fin tracks → Int) (trackIndices)

/-- The cascade after its levels below `level`: the matches, and the detections left. -/
def descend (level : Nat) : Prog (List (Fin tracks × Fin detections) × List (Fin detections)) :=
  (List.range level).foldlM (cascadeLevel infinite metric maxDistance timeSinceUpdate trackIndices)
    ([], List.finRange detections)

/-- `track_indices_l`. -/
def trackIndicesL (level : Nat) : List (Fin tracks) :=
  trackIndices.filter fun k => decide (timeSinceUpdate k = 1 + level)

variable {infinite metric maxDistance timeSinceUpdate trackIndices}
variable {level : Nat} {found next : List (Fin tracks × Fin detections) × List (Fin detections)}

theorem descend_zero (reached : descend infinite metric maxDistance trackIndices timeSinceUpdate 0 rounds = .ok found) :
    found = ([], List.finRange detections) :=
  (pure_result.mp reached).symm

theorem descend_succ :
    descend infinite metric maxDistance trackIndices timeSinceUpdate (level + 1) rounds = .ok next ↔
      ∃ found, descend infinite metric maxDistance trackIndices timeSinceUpdate level rounds = .ok found ∧
        cascadeLevel infinite metric maxDistance timeSinceUpdate trackIndices found level rounds = .ok next := by
  unfold descend
  rw [List.range_succ, List.foldlM_append, bind_result]
  simp only [List.foldlM_cons, List.foldlM_nil, bind_pure]

/-- A level adds the matches of its call of `min_cost_matching` to those it found. -/
theorem cascadeLevel_matched
    (taken : cascadeLevel infinite metric maxDistance timeSinceUpdate trackIndices found level rounds = .ok next) :
    next = found ∧ (found.2 = [] ∨ trackIndicesL trackIndices timeSinceUpdate level = []) ∨
      ∃ tmp, minCostMatching infinite metric maxDistance (trackIndicesL trackIndices timeSinceUpdate level) found.2
        rounds = .ok tmp ∧ next.1 = found.1 ++ tmp.matched := by
  unfold cascadeLevel at taken
  split at taken
  next idle => exact .inl ⟨(pure_result.mp taken).symm, idle⟩
  next =>
    obtain ⟨tmp, matched, finished⟩ := bind_result.mp taken
    obtain rfl := pure_result.mp finished
    exact .inr ⟨tmp, matched, rfl⟩

variable (infinite metric maxDistance trackIndices timeSinceUpdate cost rounds) in
/-- The pair was asked for by a level below `level`, and its last test lets it through. -/
def Admitted (level : Nat) (pair : Fin tracks × Fin detections) : Prop :=
  ∃ earlier before, earlier < level ∧
    descend infinite metric maxDistance trackIndices timeSinceUpdate earlier rounds = .ok before ∧
    pair.1 ∈ trackIndicesL trackIndices timeSinceUpdate earlier ∧ pair.2 ∈ before.2 ∧
    Accepted maxDistance (cost pair.1 pair.2)

theorem descend_admitted (pointwise : Pointwise metric cost)
    (reached : descend infinite metric maxDistance trackIndices timeSinceUpdate level rounds = .ok found) :
    ∀ pair ∈ found.1, Admitted infinite metric maxDistance cost rounds trackIndices timeSinceUpdate level pair := by
  induction level generalizing found with
  | zero =>
    rw [descend_zero reached]
    exact fun pair none => absurd none List.not_mem_nil
  | succ level ih =>
    obtain ⟨before, below, taken⟩ := descend_succ.mp reached
    intro pair member
    have old (there : pair ∈ before.1) :
        Admitted infinite metric maxDistance cost rounds trackIndices timeSinceUpdate (level + 1) pair := by
      obtain ⟨earlier, state, lower, asked⟩ := ih below pair there
      exact ⟨earlier, state, lower.trans (Nat.lt_succ_self level), asked⟩
    obtain ⟨rfl, _⟩ | ⟨tmp, matched, joined⟩ := cascadeLevel_matched taken
    · exact old member
    · rw [joined] at member
      obtain there | new := List.mem_append.mp member
      · exact old there
      · exact ⟨level, before, Nat.lt_succ_self level, below, minCostMatching_accepted pointwise matched pair new⟩

/-- What a level matched is among the matches of the later ones. -/
theorem descend_kept {later : Nat} {last : List (Fin tracks × Fin detections) × List (Fin detections)}
    (reached : descend infinite metric maxDistance trackIndices timeSinceUpdate later rounds = .ok last)
    (inside : level < later) :
    ∃ found next, descend infinite metric maxDistance trackIndices timeSinceUpdate level rounds = .ok found ∧
      cascadeLevel infinite metric maxDistance timeSinceUpdate trackIndices found level rounds = .ok next ∧
      next.1 ⊆ last.1 := by
  induction later generalizing last with
  | zero => exact absurd inside (Nat.not_lt_zero level)
  | succ later ih =>
    obtain ⟨before, below, taken⟩ := descend_succ.mp reached
    obtain lower | same := Nat.lt_succ_iff_lt_or_eq.mp inside
    · obtain ⟨found, next, reachedThere, takenThere, kept⟩ := ih below lower
      refine ⟨found, next, reachedThere, takenThere, List.Subset.trans kept ?_⟩
      obtain ⟨rfl, _⟩ | ⟨tmp, _, joined⟩ := cascadeLevel_matched taken
      · exact List.Subset.refl _
      · rw [joined]
        exact List.subset_append_left _ _
    · subst same
      exact ⟨before, last, below, taken, List.Subset.refl _⟩

variable {cascadeDepth : Int}

theorem matchingCascade_descends (returned :
    matchingCascade infinite metric maxDistance cascadeDepth timeSinceUpdate trackIndices rounds = .ok res) :
    ∃ last, descend infinite metric maxDistance trackIndices timeSinceUpdate cascadeDepth.toNat rounds = .ok last ∧
      res.matched = last.1 := by
  obtain ⟨last, folded, finished⟩ := bind_result.mp returned
  obtain rfl := pure_result.mp finished
  exact ⟨last, folded, rfl⟩

theorem matchingCascade_admitted (pointwise : Pointwise metric cost) (returned :
    matchingCascade infinite metric maxDistance cascadeDepth timeSinceUpdate trackIndices rounds = .ok res) :
    ∀ pair ∈ res.matched,
      Admitted infinite metric maxDistance cost rounds trackIndices timeSinceUpdate cascadeDepth.toNat pair := by
  obtain ⟨last, reached, same⟩ := matchingCascade_descends returned
  rw [same]
  exact descend_admitted pointwise reached

theorem Admitted.listed {pair : Fin tracks × Fin detections}
    (admitted : Admitted infinite metric maxDistance cost rounds trackIndices timeSinceUpdate level pair) :
    pair.1 ∈ trackIndices := by
  obtain ⟨_, _, _, _, listed, _⟩ := admitted
  exact (List.mem_filter.mp listed).1

end accepted
end LinearAssignment

namespace Tracker
open LinearAssignment WithNaN

section pairs

variable {F : Type} [Arithmetic F] (calls : Calls F) (detections : List (Detection F)) (tracker : Tracker F)

/-- The appearance cost of a track and a detection. -/
def appearance (track : Track F) (detection : Detection F) : F :=
  NearNeighborDisMetric.nncosineDistance calls.sqrt (tracker.metric.gallery track.trackId) detection.row.feature

def gating (track : Track F) (detection : Detection F) : F :=
  gatingDistance calls track.mean track.covariance detection.row.toXyah

/-- Their cost in the cascade, and their cost in the IoU round. -/
def gatedCost (track : Track F) (detection : Detection F) : F :=
  if gatingThreshold < gating calls track detection then inftyCost else appearance calls tracker track detection

def overlapCost (track : Track F) (detection : Detection F) : F :=
  if 1 < track.timeSinceUpdate then inftyCost else 1 - iou track.toTlwh detection.row.tlwh

/-- The two kinds of rounds of `_match`. -/
def cascade : Prog (TracherMatchd tracker.tracks.length detections.length) :=
  matchingCascade calls.infinite (gatedMatric calls detections tracker) tracker.metric.matingThreshold tracker.maxAge
    (fun idx => (tracker.tracks.get idx).timeSinceUpdate) tracker.confirmedTracks

/-- `iou_track_candidates`. -/
def iouTrackCandidates (matcha : TracherMatchd tracker.tracks.length detections.length) :
    List (Fin tracker.tracks.length) :=
  tracker.unconfirmedTracks ++
    matcha.unmatchedTracks.filter fun idx => decide ((tracker.tracks.get idx).timeSinceUpdate = 1)

def iouRound (matcha : TracherMatchd tracker.tracks.length detections.length) :
    Prog (TracherMatchd tracker.tracks.length detections.length) :=
  minCostMatching calls.infinite (iouCost detections tracker) tracker.maxIouDistance
    (iouTrackCandidates detections tracker matcha) matcha.unmatchedDetections

/-- The cascade before a level. -/
def beforeLevel :
    Nat → Prog (List (Fin tracker.tracks.length × Fin detections.length) × List (Fin detections.length)) :=
  descend calls.infinite (gatedMatric calls detections tracker) tracker.metric.matingThreshold tracker.confirmedTracks
    fun idx => (tracker.tracks.get idx).timeSinceUpdate

/-- The confirmed tracks of a level. -/
def levelTracks : Nat → List (Fin tracker.tracks.length) :=
  trackIndicesL tracker.confirmedTracks fun idx => (tracker.tracks.get idx).timeSinceUpdate

inductive Gate where
  | cascade
  | overlap

/-- The tracks and the detections that the rounds of `_match` compute costs for. -/
inductive Asks (rounds : Nat) :
    Gate → List (Fin tracker.tracks.length) → List (Fin detections.length) → Prop
  | level {level : Nat} {found} (inside : level < tracker.maxAge.toNat)
      (reached : beforeLevel calls detections tracker level rounds = .ok found) :
      Asks rounds .cascade (levelTracks tracker level) found.2
  | overlap {matcha} (cascaded : cascade calls detections tracker rounds = .ok matcha) :
      Asks rounds .overlap (iouTrackCandidates detections tracker matcha) matcha.unmatchedDetections

/-- The costs of a pair are numbers within the bounds. -/
def Passes (gate : Gate) (idx : Fin tracker.tracks.length) (detection : Fin detections.length) : Prop :=
  match gate with
  | .cascade =>
    appearance calls tracker (tracker.tracks.get idx) (detections.get detection) ≤ tracker.metric.matingThreshold ∧
      gating calls (tracker.tracks.get idx) (detections.get detection) ≤ gatingThreshold
  | .overlap => overlapCost (tracker.tracks.get idx) (detections.get detection) ≤ tracker.maxIouDistance

variable {calls detections tracker} {rounds : Nat}

theorem gatedMatric_pointwise : Pointwise (gatedMatric calls detections tracker) fun idx detection =>
    gatedCost calls tracker (tracker.tracks.get idx) (detections.get detection) := by
  intro trackIndices detectionIndices rounds costMatrix computed row col
  obtain ⟨distances, measured, finished⟩ := bind_result.mp computed
  obtain rfl := pure_result.mp finished
  unfold NearNeighborDisMetric.distance at measured
  split at measured
  · cases measured
  · obtain rfl := pure_result.mp measured
    rfl

theorem iouCost_pointwise : Pointwise (iouCost detections tracker) fun idx detection =>
    overlapCost (tracker.tracks.get idx) (detections.get detection) := by
  intro trackIndices detectionIndices rounds costMatrix computed row col
  obtain rfl := pure_result.mp computed
  rfl

theorem matchTracks_rounds {res : TracherMatchd tracker.tracks.length detections.length}
    (returned : matchTracks calls detections tracker rounds = .ok res) :
    ∃ matcha matchb, cascade calls detections tracker rounds = .ok matcha ∧
      iouRound calls detections tracker matcha rounds = .ok matchb ∧
      res.matched = matcha.matched ++ matchb.matched := by
  obtain ⟨matcha, cascaded, remaining⟩ := bind_result.mp returned
  obtain ⟨matchb, matched, finished⟩ := bind_result.mp remaining
  obtain rfl := pure_result.mp finished
  exact ⟨matcha, matchb, cascaded, matched, rfl⟩

end pairs

variable {K : Type} [Field K] [LinearOrder K] [IsStrictOrderedRing K]

theorem accepted_iff {maxDistance cost : WithNaN K} : Accepted maxDistance cost ↔ ¬maxDistance < cost := by
  have step : (1 / 100000 : WithNaN K) = .number (1 / 100000) := by
    have nonzero : ((100000 : Nat) : K) ≠ 0 := by norm_num
    exact (if_neg nonzero).trans (by norm_num)
  unfold Accepted
  split
  · next above =>
    rw [step]
    exact iff_of_false (not_not_intro (lt_add_of_lt (by norm_num) above)) (not_not_intro above)
  · rfl

/-- No gate of the pair rests on a comparison with a value that is no number. -/
structure Decided (mating appearance gating : WithNaN K) : Prop where
  bound : mating ≠ .nan
  sentinel : gatingThreshold < gating → mating < inftyCost
  measured : gating = .nan → mating < appearance
  compared : appearance = .nan → gatingThreshold < gating

theorem decided_iff {mating appearance gating : WithNaN K} : Decided mating appearance gating ↔
    (Accepted mating (if gatingThreshold < gating then inftyCost else appearance) →
      appearance ≤ mating ∧ gating ≤ gatingThreshold) := by
  have threshold : (gatingThreshold : WithNaN K) ≠ .nan := by
    have nonzero : ((10000 : Nat) : K) ≠ 0 := by norm_num
    simp only [gatingThreshold]
    exact fun missing => absurd ((if_neg nonzero).symm.trans missing) (by simp)
  rw [accepted_iff]
  constructor
  · intro decided accepted
    split at accepted
    · next far => exact absurd (decided.sentinel far) accepted
    · next near =>
      exact ⟨le_iff.mpr ⟨fun missing => near (decided.compared missing), decided.bound, accepted⟩,
        le_iff.mpr ⟨fun missing => accepted (decided.measured missing), threshold, near⟩⟩
  · intro gates
    constructor
    case bound =>
      intro missing
      rw [missing] at gates
      exact not_le_nan (gates not_nan_lt).1
    case sentinel =>
      intro far
      by_contra small
      rw [if_pos far] at gates
      exact (le_iff.mp (gates small).2).2.2 far
    case measured =>
      intro missing
      by_contra small
      rw [missing, if_neg not_lt_nan] at gates
      exact not_nan_le (gates small).2
    case compared =>
      intro missing
      by_contra near
      rw [if_neg near, missing] at gates
      exact not_nan_le (gates not_lt_nan).1

theorem numbers_iff {maxDistance cost : WithNaN K} :
    maxDistance ≠ .nan ∧ cost ≠ .nan ↔ (Accepted maxDistance cost → cost ≤ maxDistance) := by
  rw [accepted_iff]
  constructor
  · intro numbers accepted
    exact le_iff.mpr ⟨numbers.2, numbers.1, accepted⟩
  · intro gate
    constructor
    · intro missing
      rw [missing] at gate
      exact not_le_nan (gate not_nan_lt)
    · intro missing
      rw [missing] at gate
      exact not_nan_le (gate not_lt_nan)

variable {calls : Calls (WithNaN K)} {detections : List (Detection (WithNaN K))} {tracker : Tracker (WithNaN K)}
variable {rounds : Nat}

variable (calls detections tracker) in
/-- No gate of the pair rests on a value that is no number. -/
def Comparable (gate : Gate) (idx : Fin tracker.tracks.length) (detection : Fin detections.length) : Prop :=
  match gate with
  | .cascade =>
    Decided tracker.metric.matingThreshold
      (appearance calls tracker (tracker.tracks.get idx) (detections.get detection))
      (gating calls (tracker.tracks.get idx) (detections.get detection))
  | .overlap =>
    tracker.maxIouDistance ≠ .nan ∧ overlapCost (tracker.tracks.get idx) (detections.get detection) ≠ .nan

theorem comparable_cascade {idx : Fin tracker.tracks.length} {detection : Fin detections.length} :
    Comparable calls detections tracker .cascade idx detection ↔
      (Accepted tracker.metric.matingThreshold
        (gatedCost calls tracker (tracker.tracks.get idx) (detections.get detection)) →
        Passes calls detections tracker .cascade idx detection) :=
  decided_iff

theorem comparable_overlap {idx : Fin tracker.tracks.length} {detection : Fin detections.length} :
    Comparable calls detections tracker .overlap idx detection ↔
      (Accepted tracker.maxIouDistance (overlapCost (tracker.tracks.get idx) (detections.get detection)) →
        Passes calls detections tracker .overlap idx detection) :=
  numbers_iff

variable (calls detections tracker rounds) in
/-- No gate of a pair that a cost is computed for rests on a value that is no number. -/
def Numeric : Prop :=
  ∀ gate trackIndices detectionIndices, Asks calls detections tracker rounds gate trackIndices detectionIndices →
    ∀ idx ∈ trackIndices, ∀ detection ∈ detectionIndices, Comparable calls detections tracker gate idx detection

variable (calls detections tracker rounds) in
/-- In every round the shorter side can be paired off with such pairs only. -/
def Avoidable : Prop :=
  ∀ gate trackIndices detectionIndices, Asks calls detections tracker rounds gate trackIndices detectionIndices →
    trackIndices ≠ [] → detectionIndices ≠ [] →
      ∃ pairs : List (Fin trackIndices.length × Fin detectionIndices.length), Pairing pairs ∧ ∀ pair ∈ pairs,
        Comparable calls detections tracker gate (trackIndices.get pair.1) (detectionIndices.get pair.2)

variable (calls detections tracker rounds) in
/-- The pairs of one round are all such pairs, or none of them is. -/
def Alike : Prop :=
  ∀ gate trackIndices detectionIndices, Asks calls detections tracker rounds gate trackIndices detectionIndices →
    (∀ idx ∈ trackIndices, ∀ detection ∈ detectionIndices, Comparable calls detections tracker gate idx detection) ∨
      ∀ idx ∈ trackIndices, ∀ detection ∈ detectionIndices, ¬Comparable calls detections tracker gate idx detection

omit [IsStrictOrderedRing K] in
theorem Avoidable.numeric (avoidable : Avoidable calls detections tracker rounds)
    (alike : Alike calls detections tracker rounds) : Numeric calls detections tracker rounds := by
  intro gate trackIndices detectionIndices asked
  obtain sound | unsound := alike gate trackIndices detectionIndices asked
  · exact sound
  · intro idx row detection col
    have rows : trackIndices ≠ [] := List.ne_nil_of_mem row
    have cols : detectionIndices ≠ [] := List.ne_nil_of_mem col
    obtain ⟨pairs, pairing, sound⟩ := avoidable gate trackIndices detectionIndices asked rows cols
    have some : 0 < pairs.length := by
      rw [pairing.length]
      exact Nat.lt_min.mpr ⟨List.length_pos_iff.mpr rows, List.length_pos_iff.mpr cols⟩
    have first := sound _ (List.get_mem pairs ⟨0, some⟩)
    exact absurd first (unsound _ (List.get_mem _ _) _ (List.get_mem _ _))

variable (calls detections tracker) in
/-- Every match of the cascade and of the IoU round passed its gates. -/
def Gated (matcha matchb : TracherMatchd tracker.tracks.length detections.length) : Prop :=
  (∀ pair ∈ matcha.matched, Passes calls detections tracker .cascade pair.1 pair.2) ∧
    ∀ pair ∈ matchb.matched, Passes calls detections tracker .overlap pair.1 pair.2

section rounds

variable {matcha matchb : TracherMatchd tracker.tracks.length detections.length}
variable (cascaded : cascade calls detections tracker rounds = .ok matcha)
variable (matched : iouRound calls detections tracker matcha rounds = .ok matchb)

include cascaded matched

theorem Numeric.gated (numeric : Numeric calls detections tracker rounds) :
    Gated calls detections tracker matcha matchb := by
  constructor
  · intro pair member
    obtain ⟨level, found, inside, before, row, col, accepted⟩ :=
      matchingCascade_admitted gatedMatric_pointwise cascaded pair member
    exact comparable_cascade.mp (numeric _ _ _ (.level inside before) _ row _ col) accepted
  · intro pair member
    obtain ⟨row, col, accepted⟩ := minCostMatching_accepted iouCost_pointwise matched pair member
    exact comparable_overlap.mp (numeric _ _ _ (.overlap cascaded) _ row _ col) accepted

theorem Gated.avoidable (gated : Gated calls detections tracker matcha matchb) :
    Avoidable calls detections tracker rounds := by
  intro gate trackIndices detectionIndices asked rows cols
  cases asked with
  | @level level found inside before =>
    obtain ⟨last, reached, same⟩ := matchingCascade_descends cascaded
    obtain ⟨state, next, reachedThere, taken, kept⟩ := descend_kept reached inside
    obtain rfl : state = found := Except.ok.inj (reachedThere.symm.trans before)
    obtain ⟨_, idle⟩ | ⟨tmp, round, joined⟩ := cascadeLevel_matched taken
    · exact absurd idle (not_or.mpr ⟨cols, rows⟩)
    · obtain ⟨pairs, pairing, decides⟩ := minCostMatching_pairing gatedMatric_pointwise rows cols round
      refine ⟨pairs, pairing, fun pair member => comparable_cascade.mpr fun accepted => ?_⟩
      apply gated.1 (_, _)
      rw [same]
      apply kept
      rw [joined]
      exact List.mem_append_right _ (decides pair member accepted)
  | @overlap other again =>
    obtain rfl : matcha = other := Except.ok.inj (cascaded.symm.trans again)
    obtain ⟨pairs, pairing, decides⟩ := minCostMatching_pairing iouCost_pointwise rows cols matched
    refine ⟨pairs, pairing, fun pair member => comparable_overlap.mpr fun accepted => ?_⟩
    apply gated.2 (_, _)
    exact decides pair member accepted

end rounds

/-- No match bypasses a gate where no comparison meets a value that is no number, among the
pairs a cost is computed for; and if no match does, every round could pair off its shorter
side without meeting one. Where the pairs of a round are alike the two are the same. -/
theorem gates_hold {res : TracherMatchd tracker.tracks.length detections.length}
    (returned : matchTracks calls detections tracker rounds = .ok res) :
    ∃ matcha matchb, cascade calls detections tracker rounds = .ok matcha ∧
      iouRound calls detections tracker matcha rounds = .ok matchb ∧
      res.matched = matcha.matched ++ matchb.matched ∧
      (Numeric calls detections tracker rounds → Gated calls detections tracker matcha matchb) ∧
      (Gated calls detections tracker matcha matchb → Avoidable calls detections tracker rounds) ∧
      (Alike calls detections tracker rounds →
        (Gated calls detections tracker matcha matchb ↔ Numeric calls detections tracker rounds)) := by
  obtain ⟨matcha, matchb, cascaded, matched, joined⟩ := matchTracks_rounds returned
  have enough : Numeric calls detections tracker rounds → Gated calls detections tracker matcha matchb :=
    Numeric.gated cascaded matched
  have needed : Gated calls detections tracker matcha matchb → Avoidable calls detections tracker rounds :=
    Gated.avoidable cascaded matched
  exact ⟨matcha, matchb, cascaded, matched, joined, enough, needed, fun alike =>
    ⟨fun gated => (needed gated).numeric alike, enough⟩⟩

instance decidableDecided (mating appearance gating : WithNaN K) : Decidable (Decided mating appearance gating) :=
  decidable_of_iff
    (mating ≠ .nan ∧ (gatingThreshold < gating → mating < inftyCost) ∧ (gating = .nan → mating < appearance) ∧
      (appearance = .nan → gatingThreshold < gating))
    ⟨fun ⟨bound, sentinel, measured, compared⟩ => ⟨bound, sentinel, measured, compared⟩,
      fun decided => ⟨decided.bound, decided.sentinel, decided.measured, decided.compared⟩⟩

/-- Exact square roots are all these runs need. -/
def numberCalls : Calls (WithNaN ℚ) where
  lltSolve _ b := b
  lltRight s d := fun i => d i / root (s i i)
  sqrt := root
  infinite _ := false
  unwritten _ := .nan
where
  root : WithNaN ℚ → WithNaN ℚ
    | .number value => if value < 0 then .nan else .number (Rat.sqrt value)
    | .nan => .nan

def unitFeature : Feature (WithNaN ℚ) := fun l => if l.val = 0 then 1 else 0

def numberDetection (feature : Feature (WithNaN ℚ)) : Detection (WithNaN ℚ) :=
  ⟨⟨0, .number (9 / 10)⟩, ⟨![100, 100, 40, 80], .number (9 / 10), feature⟩⟩

/-- A tracker with one confirmed track where the detection is, and with one feature. -/
def numberTracker : Tracker (WithNaN ℚ) where
  metric := ⟨.number (1 / 2), 100, fun target => if target = 1 then some [unitFeature] else none⟩
  maxIouDistance := .number (7 / 10)
  maxAge := 30
  nInit := 2
  nextIdx := 2
  tracks :=
    [{ Track.create ![120, 140, .number (1 / 2), 80, 0, 0, 0, 0]
          (.of fun i j => if i = j then if i = 2 then .number (21 / 400) else 9 else 0) 1 2 30 unitFeature
          ⟨0, .number (9 / 10)⟩ with
        state := .confirmed
        timeSinceUpdate := 1
        features := [] }]

instance decidableComparable {tracker : Tracker (WithNaN ℚ)} {detections : List (Detection (WithNaN ℚ))} (gate : Gate)
    (idx : Fin tracker.tracks.length) (detection : Fin detections.length) :
    Decidable (Comparable numberCalls detections tracker gate idx detection) :=
  match gate with
  | .cascade => decidableDecided _ _ _
  | .overlap => inferInstanceAs (Decidable (_ ≠ _ ∧ _ ≠ _))

/-- A second track was missed once and has only a blank feature; its level is not reached. -/
def agedTracker : Tracker (WithNaN ℚ) :=
  { numberTracker with
    metric := ⟨.number (1 / 2), 100, fun target => if target = 1 then some [unitFeature] else some [0]⟩
    maxAge := 3
    tracks := numberTracker.tracks ++
      numberTracker.tracks.map fun track => { track with trackId := 2, timeSinceUpdate := 2 } }

theorem gates_hold_sample : ∃ matcha matchb,
    cascade numberCalls [numberDetection unitFeature] agedTracker 9 = .ok matcha ∧
      Gated numberCalls [numberDetection unitFeature] agedTracker matcha matchb := by
  have levels : ∀ level < 3,
      (beforeLevel numberCalls [numberDetection unitFeature] agedTracker level 9).toOption.all fun found =>
        decide (∀ idx ∈ levelTracks agedTracker level, ∀ detection ∈ found.2,
          Comparable numberCalls [numberDetection unitFeature] agedTracker .cascade idx detection) := by
    decide +kernel
  have rest : (cascade numberCalls [numberDetection unitFeature] agedTracker 9).toOption.all fun matcha =>
      decide (matcha.unmatchedDetections = []) := by
    decide +kernel
  have numeric : Numeric numberCalls [numberDetection unitFeature] agedTracker 9 := by
    intro gate trackIndices detectionIndices asked
    cases asked with
    | @level level found inside reached =>
      have all := levels level inside
      rw [reached] at all
      exact of_decide_eq_true all
    | @overlap matcha cascaded =>
      rw [cascaded] at rest
      rw [of_decide_eq_true rest]
      simp
  have returns : (matchTracks numberCalls [numberDetection unitFeature] agedTracker 9).toOption.isSome := by
    decide +kernel
  cases returned : matchTracks numberCalls [numberDetection unitFeature] agedTracker 9 with
  | error fault =>
    rw [returned] at returns
    cases returns
  | ok res =>
    obtain ⟨matcha, matchb, cascaded, _, _, enough, _⟩ := gates_hold returned
    exact ⟨matcha, matchb, cascaded, enough numeric⟩

/-- A detection without a feature vector is matched at a cost that is no number. -/
theorem blank_feature_matched :
    ((cascade numberCalls [numberDetection 0] numberTracker 9).toOption.map TracherMatchd.matched) =
        some [(⟨0, Nat.one_pos⟩, 0)] ∧
      ∀ track ∈ numberTracker.tracks, appearance numberCalls numberTracker track (numberDetection 0) = .nan := by
  decide +kernel

end Tracker
end Yolov5Rknn.DeepSort

import Yolov5Rknn.Proofs.TrackerRemoval

/-! How long a lost track is kept. It stays lost and in the pool for its buffer time,
unless an earlier call marked its id removed: such an id is subtracted at once. -/

namespace Yolov5Rknn.BYTETracker
open Matching Pointers Transition

variable {F : Type} {tracker : Tracker F} {count id last : Int} {call : Call F} {track old : STrack F}

/-- The call does not match the track `id`, and `remove_duplicate_stracks` does not
drop it. -/
structure Missed (id : Int) (call : Call F) : Prop where
  unmatched : id ∉ call.used.map Prod.fst
  kept : id ∈ ids call.subtracted → id ∈ ids call.tracker.lostStracks

/-- Where the track `id`, last matched in the frame `last`, is found while it waits. -/
inductive Place (id last : Int) (tracker : Tracker F) : Prop where
  | tracked (track : STrack F) (member : track ∈ tracker.trackedStracks) (same : track.trackId = id)
      (activated : track.isActivated = true) (now : tracker.frameId = last)
  | lost (track : STrack F) (member : track ∈ tracker.lostStracks) (same : track.trackId = id)
      (state : track.state = .lost) (matched : track.frameId = last)

structure Waiting (id last : Int) (process : Process F) : Prop where
  known : Known process
  timed : Timed process.tracker
  live : id ∉ ids process.tracker.removedStracks
  place : Place id last process.tracker

theorem Missed.not_active (missed : Missed id call) {position : Nat} (active : Active call track position) :
    track.trackId ≠ id := by
  rintro rfl
  exact missed.unmatched (List.mem_map.mpr ⟨_, active.used, rfl⟩)

variable [Arithmetic F] {calls : Calls F} {objects : List (Object F)} {fps numFrames : Int}

instance (id : Int) (call : Call F) : Decidable (Missed id call) :=
  decidable_of_iff (id ∉ call.used.map Prod.fst ∧
      (id ∈ ids call.subtracted → id ∈ ids call.tracker.lostStracks))
    ⟨fun both => ⟨both.1, both.2⟩, fun missed => ⟨missed.unmatched, missed.kept⟩⟩

def MissedBy (calls : Calls F) (id : Int) (process : Process F) : Event F → Prop
  | .update objects fps numFrames =>
    Missed id (update calls objects fps numFrames process.count process.tracker)
  | .nextId => True

instance (id : Int) (process : Process F) : (event : Event F) → Decidable (MissedBy calls id process event)
  | .update objects fps numFrames => inferInstanceAs
    (Decidable (Missed id (update calls objects fps numFrames process.count process.tracker)))
  | .nextId => .isTrue trivial

/-- The track `id` is lost, and the first round of the next call is offered it. -/
structure Retained (calls : Calls F) (id : Int) (process : Process F) : Prop where
  lost : ∃ track ∈ process.tracker.lostStracks, track.trackId = id ∧ track.state = .lost
  pool : ∀ objects fps numFrames,
    id ∈ ids (update calls objects fps numFrames process.count process.tracker).pool

/-- A tracked track that is missed is pushed to the lost ones. -/
theorem Valid.tracked_missed (valid : Valid tracker count) (partitions : Partitions calls)
    (timed : Timed tracker) (made : update calls objects fps numFrames count tracker = call)
    (missed : Missed track.trackId call) (member : track ∈ tracker.trackedStracks)
    (activated : track.isActivated = true) : ∃ lost, .lost lost ∈ call.pushed ∧
      lost.trackId = track.trackId ∧ lost.state = .lost ∧ lost.frameId = tracker.frameId := by
  obtain ⟨entry, pushed, same⟩ := valid.tracked_pushed partitions objects member
  have origin := valid.origin partitions pushed
  have listed : entry ∈ call.pushed := by
    subst made
    exact pushed
  cases entry with
  | activated found position => exact absurd same (missed.not_active (.activated listed))
  | refind found position => exact absurd same (missed.not_active (.refind listed))
  | lost found =>
    obtain ⟨state, old, before, _, _, frameId⟩ := origin
    exact ⟨found, listed, same, state, frameId.symm.trans (timed.tracked old before)⟩
  | removed found =>
    obtain ⟨_, old, before, inactive, equal⟩ := origin
    cases valid.tracked_eq before member (equal.trans same)
    cases inactive.symm.trans activated

/-- A lost track that is missed in time stays as it is, but for its prediction. -/
theorem Valid.lost_missed (valid : Valid tracker count) (partitions : Partitions calls)
    (made : update calls objects fps numFrames count tracker = call)
    (missed : Missed track.trackId call) (member : track ∈ tracker.lostStracks)
    (waits : tracker.overdue track = false) (live : track.trackId ∉ ids tracker.removedStracks) :
    track.predict ∈ call.subtracted := by
  obtain ⟨raw, right, same, ⟨position, refound⟩ | rfl⟩ := valid.right_of_lost partitions objects member
  · have listed : .refind raw position ∈ call.pushed := by
      subst made
      exact refound
    exact absurd same (missed.not_active (.refind listed))
  · have untracked : track.predict.trackId ∉ ids call.jointed := by
      intro tracked
      obtain ⟨found, jointed, equal⟩ := List.mem_map.mp tracked
      obtain ⟨position, active⟩ := valid.mem_jointed partitions made jointed
      exact missed.not_active active equal
    have stays := right_subtracted made right untracked live
    have due : tracker.overdue track.predict = false := waits
    rwa [due] at stays

/-- An id that waits is not marked removed. -/
theorem Valid.waiting_unmarked (valid : Valid tracker count) (partitions : Partitions calls)
    (made : update calls objects fps numFrames count tracker = call) (missed : Missed id call)
    (place : Place id last tracker) (within : tracker.now ≤ last + tracker.maxTimeLost) :
    id ∉ ids call.removedStracks := by
  intro marked
  obtain ⟨removed, listed, same⟩ := List.mem_map.mp marked
  obtain pushed | ⟨raw, right, due, rfl⟩ := mem_removed made listed
  · subst made
    obtain ⟨_, old, before, inactive, equal⟩ := valid.origin partitions pushed
    cases place with
    | tracked track member here activated now =>
      cases valid.tracked_eq before member (equal.trans (same.trans here.symm))
      cases inactive.symm.trans activated
    | lost track member here state matched =>
      exact valid.not_both before member (equal.trans (same.trans here.symm))
  · obtain ⟨position, refound⟩ | ⟨old, before, rfl, _⟩ := valid.right_fate partitions right
    · subst made
      exact missed.not_active (.refind refound) same
    · cases place with
      | tracked track member here activated now => exact valid.not_both member before (here.trans same.symm)
      | lost track member here state matched =>
        have equal : old = track := valid.lost_eq before member (same.trans here.symm)
        have late : tracker.now - old.frameId > tracker.maxTimeLost := of_decide_eq_true due
        rw [equal, matched] at late
        omega

/-- A missed call leaves the track among the lost ones. -/
theorem Valid.waiting_lost (valid : Valid tracker count) (partitions : Partitions calls)
    (timed : Timed tracker) (made : update calls objects fps numFrames count tracker = call)
    (missed : Missed id call) (live : id ∉ ids tracker.removedStracks) (place : Place id last tracker)
    (within : tracker.now ≤ last + tracker.maxTimeLost) : Place id last call.tracker := by
  obtain ⟨stays, subtracted, same, state, matched⟩ : ∃ stays ∈ call.subtracted,
      stays.trackId = id ∧ stays.state = .lost ∧ stays.frameId = last := by
    cases place with
    | tracked track member here activated now =>
      subst here
      obtain ⟨lost, pushed, same, state, frameId⟩ :=
        valid.tracked_missed partitions timed made missed member activated
      exact ⟨lost, lost_subtracted made pushed (same ▸ live), same, state, frameId.trans now⟩
    | lost track member here state matched =>
      subst here
      have waits : tracker.overdue track = false := by
        apply decide_eq_false
        simp only [STrack.endFrame, matched]
        omega
      exact ⟨_, valid.lost_missed partitions made missed member waits live, rfl, state, matched⟩
  obtain ⟨found, member, equal⟩ := List.mem_map.mp (missed.kept (same ▸ mem_ids subtracted))
  have one : found = stays := List.inj_on_of_nodup_map (valid.subtracted_nodup partitions made)
    ((call_lost made).subset member) subtracted (equal.trans same.symm)
  exact .lost found member equal (one ▸ state) (one ▸ matched)

variable {start matched process next : Process F} {event : Event F} {events : List (Event F)}

theorem step_waiting (partitions : Partitions calls) (missed : MissedBy calls id process event)
    (waiting : Waiting id last process) (taken : step calls event process = some next)
    (within : next.tracker.frameId ≤ last + next.tracker.maxTimeLost) : Waiting id last next := by
  obtain ⟨known, timed, live, place⟩ := waiting
  have again := step_known partitions known taken
  cases event with
  | nextId =>
    cases taken
    exact ⟨again, timed, live, place⟩
  | update objects fps numFrames =>
    cases taken
    refine ⟨again, known.valid.next_timed partitions timed rfl, ?_, ?_⟩
    · rw [call_removed rfl, ids_append, List.mem_append]
      rintro (before | marked)
      · exact live before
      · exact known.valid.waiting_unmarked partitions rfl missed place within marked
    · exact known.valid.waiting_lost partitions timed rfl missed live place within

/-- Frames only go forward, and the buffer time is fixed. -/
theorem step_frames (taken : step calls event process = some next) :
    process.tracker.frameId ≤ next.tracker.frameId ∧
      next.tracker.maxTimeLost = process.tracker.maxTimeLost := by
  cases event with
  | nextId =>
    cases taken
    exact ⟨le_refl _, rfl⟩
  | update objects fps numFrames =>
    cases taken
    exact ⟨Int.le_add_one (le_refl _), rfl⟩

/-- An id removed before the track was lost keeps it out of the lost ones. -/
theorem step_banned (partitions : Partitions calls) (known : Known process)
    (taken : step calls event process = some next)
    (banned : id ∈ ids process.tracker.removedStracks ∧
      (last < process.tracker.frameId → id ∉ ids process.tracker.lostStracks)) :
    id ∈ ids next.tracker.removedStracks ∧
      (last < next.tracker.frameId → id ∉ ids next.tracker.lostStracks) := by
  cases event with
  | nextId =>
    cases taken
    exact banned
  | update objects fps numFrames =>
    cases taken
    refine ⟨?_, fun _ member => ?_⟩
    · rw [call_removed rfl, ids_append]
      exact List.mem_append_left _ banned.1
    · have subtracted := (ids_sublist (call_lost rfl)).subset member
      obtain ⟨track, listed, rfl⟩ := List.mem_map.mp subtracted
      exact (known.valid.mem_subtracted partitions rfl listed).1 banned.1

theorem Valid.lost_pooled (valid : Valid tracker count) (member : old ∈ tracker.lostStracks)
    (made : update calls objects fps numFrames count tracker = call) : old.trackId ∈ ids call.pool := by
  obtain ⟨index, there⟩ := List.mem_iff_getElem?.mp member
  have inside := (List.getElem?_eq_some_iff.mp there).1
  have pooled : Pointer.right index ∈ tracker.pool := valid.mem_pool.mpr (.inr (right_mem_rights.mpr inside))
  have here : tracker.store.get? (.right index) = some old := there
  have seen : tracker.predicted.get? (.right index) = some old.predict := by
    rw [valid.predicted_get?, here, Option.map_some, if_pos pooled]
  subst made
  exact List.mem_map.mpr ⟨_, List.mem_filterMap.mpr ⟨_, pooled, seen⟩, rfl⟩

theorem Waiting.retained (waiting : Waiting id last process) (later : last < process.tracker.frameId) :
    Retained calls id process := by
  obtain ⟨⟨valid, _, _⟩, _, _, place⟩ := waiting
  cases place with
  | tracked track member same activated now => exact absurd now (ne_of_gt later)
  | lost track member same state matched =>
    exact ⟨⟨track, member, same, state⟩, fun objects fps numFrames => same ▸ valid.lost_pooled member rfl⟩

/-- Every call returns. -/
theorem run_total (calls : Calls F) (events : List (Event F)) (process : Process F) :
    ∃ final, run (step calls) events process = some final := by
  induction events generalizing process with
  | nil => exact ⟨process, rfl⟩
  | cons event rest ih =>
    cases event with
    | update objects fps numFrames => exact ih _
    | nextId => exact ih _

/-- The run lemma: a missed track waits as long as its buffer time lasts. -/
theorem run_waiting (partitions : Partitions calls) (waiting : Waiting id last matched)
    (missed : Along (step calls) (MissedBy calls id) events matched)
    (executed : run (step calls) events matched = some process)
    (within : process.tracker.frameId ≤ last + process.tracker.maxTimeLost) : Waiting id last process := by
  refine run_keeps (fun process => process.tracker.frameId ≤ last + process.tracker.maxTimeLost →
    Waiting id last process) ?_ missed (fun _ => waiting) executed within
  intro event process next missed waits taken within
  obtain ⟨forward, buffer⟩ := step_frames taken
  refine step_waiting partitions missed (waits ?_) taken within
  omega

/-- The run lemma: a banned id is not among the lost ones. -/
theorem run_banned (partitions : Partitions calls) (known : Known matched)
    (removed : id ∈ ids matched.tracker.removedStracks) (now : matched.tracker.frameId = last)
    (executed : run (step calls) events matched = some process) (later : last < process.tracker.frameId) :
    id ∉ ids process.tracker.lostStracks := by
  have banned : Known process ∧ id ∈ ids process.tracker.removedStracks ∧
      (last < process.tracker.frameId → id ∉ ids process.tracker.lostStracks) := by
    refine reachable_keeps (fun process => Known process ∧ id ∈ ids process.tracker.removedStracks ∧
      (last < process.tracker.frameId → id ∉ ids process.tracker.lostStracks)) ?_ ?_ ⟨events, executed⟩
    · exact fun _ _ _ banned taken =>
        ⟨step_known partitions banned.1 taken, step_banned partitions banned.1 taken banned.2⟩
    · exact ⟨known, removed, fun after => absurd now (ne_of_gt after)⟩
  exact banned.2.2 later

theorem reachable_timed (partitions : Partitions calls) (fresh : Fresh start)
    (reached : Reachable (step calls) start process) : Timed process.tracker := by
  have both : Known process ∧ Timed process.tracker := by
    refine reachable_keeps (fun process => Known process ∧ Timed process.tracker) ?_ ⟨fresh.known, fresh.timed⟩
      reached
    intro event process next both taken
    refine ⟨step_known partitions both.1 taken, ?_⟩
    cases event with
    | nextId =>
      cases taken
      exact both.2
    | update objects fps numFrames =>
      cases taken
      exact both.1.valid.next_timed partitions both.2 rfl
  exact both.2

/-- In every run, an activated track that is then missed is kept for its buffer time
exactly if no call had marked its id removed before it was lost. -/
theorem retained_iff (partitions : Partitions calls) (fresh : Fresh start)
    (reached : Reachable (step calls) start matched) (member : track ∈ matched.tracker.trackedStracks)
    (activated : track.isActivated = true)
    (missed : Along (step calls) (MissedBy calls track.trackId) events matched)
    (executed : run (step calls) events matched = some process)
    (later : track.frameId < process.tracker.frameId)
    (within : process.tracker.frameId ≤ track.frameId + process.tracker.maxTimeLost) :
    Retained calls track.trackId process ↔ track.trackId ∉ ids matched.tracker.removedStracks := by
  have known := reachable_known partitions fresh reached
  have timed := reachable_timed partitions fresh reached
  have now := (timed.tracked track member).symm
  constructor
  · intro retained removed
    obtain ⟨lost, listed, same, _⟩ := retained.lost
    exact run_banned partitions known removed now executed later (same ▸ mem_ids listed)
  · intro live
    have waiting : Waiting track.trackId track.frameId matched :=
      ⟨known, timed, live, .tracked track member rfl activated now⟩
    exact (run_waiting partitions waiting missed executed within).retained later

/-- The sample tracker after a run. -/
def sampleAfter (events : List (Event ℚ)) : Process ℚ :=
  (run (step sampleCalls) events sampleStart).getD sampleStart

theorem sampleAfter_run (events : List (Event ℚ)) :
    run (step sampleCalls) events sampleStart = some (sampleAfter events) := by
  obtain ⟨process, executed⟩ := run_total sampleCalls events sampleStart
  rw [sampleAfter, executed]
  rfl

theorem sampleAfter_more (events more : List (Event ℚ)) :
    run (step sampleCalls) more (sampleAfter events) = some (sampleAfter (events ++ more)) := by
  have executed := sampleAfter_run (events ++ more)
  rwa [run_append, sampleAfter_run] at executed

theorem retained_iff_sample : Retained sampleCalls 1 (sampleAfter [seen 1, missed 2]) ↔
    1 ∉ ids (sampleAfter [seen 1]).tracker.removedStracks := by
  have found : ∃ track ∈ (sampleAfter [seen 1]).tracker.trackedStracks,
      track.trackId = 1 ∧ track.isActivated = true ∧ track.frameId = 1 := by decide +kernel
  have misses : Along (step sampleCalls) (MissedBy sampleCalls 1) [missed 2] (sampleAfter [seen 1]) := by
    decide +kernel
  have later : 1 < (sampleAfter [seen 1, missed 2]).tracker.frameId := by decide +kernel
  have within : (sampleAfter [seen 1, missed 2]).tracker.frameId ≤
      1 + (sampleAfter [seen 1, missed 2]).tracker.maxTimeLost := by decide +kernel
  obtain ⟨track, member, same, activated, frame⟩ := found
  have sample := retained_iff sampleCalls_partitions sampleStart_fresh ⟨[seen 1], sampleAfter_run _⟩ member
    activated (by rw [same]; exact misses) (sampleAfter_more [seen 1] [missed 2])
    (by rw [frame]; exact later) (by rw [frame]; exact within)
  rwa [same] at sample

/-- The track of the object, marked removed in the third frame and found again in the
fourth, is dropped in the fifth. -/
theorem refound_dropped : ∃ matched process,
    run (step sampleCalls) [seen 1, missed 2, missed 3, seen 4] sampleStart = some matched ∧
    (∃ track ∈ matched.tracker.trackedStracks,
      track.trackId = 1 ∧ track.isActivated = true ∧ track.frameId = 4) ∧
    Along (step sampleCalls) (MissedBy sampleCalls 1) [missed 5] matched ∧
    run (step sampleCalls) [missed 5] matched = some process ∧
    process.tracker.frameId = 5 ∧ process.tracker.maxTimeLost = 1 ∧ ¬Retained sampleCalls 1 process := by
  refine ⟨sampleAfter [seen 1, missed 2, missed 3, seen 4],
    sampleAfter [seen 1, missed 2, missed 3, seen 4, missed 5], sampleAfter_run _, by decide +kernel,
    by decide +kernel, sampleAfter_more [seen 1, missed 2, missed 3, seen 4] [missed 5], by decide +kernel,
    by decide +kernel, fun retained => ?_⟩
  obtain ⟨track, member, same, _⟩ := retained.lost
  have gone : 1 ∉ ids (sampleAfter [seen 1, missed 2, missed 3, seen 4, missed 5]).tracker.lostStracks := by
    decide +kernel
  have listed := mem_ids member
  rw [same] at listed
  exact gone listed

end Yolov5Rknn.BYTETracker

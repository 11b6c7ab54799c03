import Yolov5Rknn.Proofs.TrackerIdentity
import Mathlib.Order.Lattice

/-! What becomes of removed tracks. `update` subtracts `removed_stracks` from the
lost tracks before it appends the tracks the expiry scan has just marked, so a
marked track stays among the lost ones for the next call to find. Removal is final
in the runs whose expiry scan marks none. -/

namespace Yolov5Rknn.BYTETracker
open Matching Pointers Transition

variable {F : Type}

/-- Tracked tracks were matched in the last call, lost ones before it. -/
structure Timed (tracker : Tracker F) : Prop where
  tracked : ∀ track ∈ tracker.trackedStracks, track.frameId = tracker.frameId
  lost : ∀ track ∈ tracker.lostStracks, track.frameId < tracker.frameId

theorem Fresh.timed {start : Process F} (fresh : Fresh start) : Timed start.tracker := by
  refine ⟨?_, ?_⟩ <;> simp [fresh.trackedStracks, fresh.lostStracks]

/-- Removed ids are not in use, and no lost track has waited for longer than the
buffer, or for one call. -/
structure Settled (process : Process F) : Prop where
  known : Known process
  timed : Timed process.tracker
  recent : ∀ track ∈ process.tracker.lostStracks,
    process.tracker.frameId - track.frameId ≤ max process.tracker.maxTimeLost 1
  apart : List.Disjoint (ids process.tracker.removedStracks)
    (ids process.tracker.trackedStracks ++ ids process.tracker.lostStracks)

theorem Fresh.settled {start : Process F} (fresh : Fresh start) : Settled start := by
  refine ⟨fresh.known, fresh.timed, ?_, ?_⟩
  · simp [fresh.lostStracks]
  · simp [fresh.removedStracks, ids]

variable [Arithmetic F] {calls : Calls F} {objects : List (Object F)} {tracker : Tracker F}
  {count fps numFrames : Int} {call : Call F} {track old : STrack F}

theorem Valid.next_timed (valid : Valid tracker count) (partitions : Partitions calls)
    (timed : Timed tracker) (made : update calls objects fps numFrames count tracker = call) :
    Timed call.tracker := by
  have now : call.tracker.frameId = tracker.frameId + 1 := by
    subst made
    rfl
  refine ⟨fun track member => ?_, fun track member => ?_⟩
  · obtain ⟨before, jointed, kept⟩ := mem_call_tracked made member
    obtain ⟨position, active⟩ := valid.mem_jointed partitions made jointed
    rw [kept.frameId, now]
    exact (valid.active_renewed partitions made active).frameId
  · obtain ⟨_, ⟨old, before, scanned, _⟩ | pushed⟩ :=
      valid.mem_subtracted partitions made ((call_lost made).subset member)
    · have earlier := timed.lost old before
      have same := scanned.frameId
      omega
    · subst made
      obtain ⟨_, old, before, _, _, same⟩ := valid.origin partitions pushed
      have current := timed.tracked old before
      omega

/-- A matched track is pushed. -/
theorem Valid.matched_pushed (valid : Valid tracker count) (partitions : Partitions calls)
    {pair : Pointer × Detection F} (matched : pair ∈ (firstRound calls objects tracker).matched) {id : Int}
    (here : tracker.idAt pair.1 = some id) :
    ∃ entry ∈ (afterThird calls objects tracker).2, entry.track.trackId = id := by
  have taken : matchTurn calls tracker.now pair ∈ turns calls objects tracker :=
    List.mem_append_left _ (List.mem_map_of_mem matched)
  obtain ⟨entry, pushed, _, known, _⟩ := valid.turn_entry partitions taken
  exact ⟨entry, pushed, Option.some.inj (known.symm.trans here)⟩

/-- The lost tracks that the expiry scan would remove are matched before it, and it
does not remove those matched in the same call. -/
structure Spared (calls : Calls F) (objects : List (Object F)) (tracker : Tracker F) : Prop where
  matched : ∀ old ∈ tracker.lostStracks, tracker.overdue old = true →
    ∃ pair ∈ (firstRound calls objects tracker).matched, tracker.idAt pair.1 = some old.trackId
  refound : tracker.lostStracks ≠ [] → 0 ≤ tracker.maxTimeLost

instance : Decidable (Spared calls objects tracker) :=
  decidable_of_iff ((∀ old ∈ tracker.lostStracks, tracker.overdue old = true →
      ∃ pair ∈ (firstRound calls objects tracker).matched, tracker.idAt pair.1 = some old.trackId) ∧
      (tracker.lostStracks ≠ [] → 0 ≤ tracker.maxTimeLost))
    ⟨fun both => ⟨both.1, both.2⟩, fun spared => ⟨spared.matched, spared.refound⟩⟩

/-- A lost track that is not matched is not overdue. -/
theorem Valid.spared_waits (valid : Valid tracker count) (partitions : Partitions calls)
    (spared : Spared calls objects tracker) (member : old ∈ tracker.lostStracks)
    (silent : ∀ entry ∈ (afterThird calls objects tracker).2, entry.track.trackId ≠ old.trackId) :
    tracker.overdue old = false := by
  apply Bool.eq_false_iff.mpr
  intro due
  obtain ⟨pair, matched, here⟩ := spared.matched old member due
  obtain ⟨entry, pushed, same⟩ := valid.matched_pushed partitions matched here
  exact silent entry pushed same

theorem Valid.spared_expired (valid : Valid tracker count) (partitions : Partitions calls)
    (spared : Spared calls objects tracker)
    (made : update calls objects fps numFrames count tracker = call) : call.expired = [] := by
  subst made
  apply List.map_eq_nil_iff.mpr
  apply List.filter_eq_nil_iff.mpr
  intro raw right due
  obtain ⟨position, refound⟩ | ⟨old, before, rfl, silent⟩ := valid.right_fate partitions right
  · obtain ⟨renewed, old, before, _⟩ := valid.origin partitions refound
    have kept := spared.refound (List.ne_nil_of_mem before)
    have late : tracker.now - raw.frameId > tracker.maxTimeLost := of_decide_eq_true due
    have now := renewed.frameId
    omega
  · have waits := valid.spared_waits partitions spared before silent
    have same : tracker.overdue old.predict = tracker.overdue old := rfl
    rw [same, waits] at due
    cases due

/-- A removed id that was not in use before the call is in no use in it. -/
theorem Valid.removed_unused (valid : Valid tracker count) (partitions : Partitions calls)
    (made : update calls objects fps numFrames count tracker = call)
    (apart : List.Disjoint (ids tracker.removedStracks)
      (ids tracker.trackedStracks ++ ids tracker.lostStracks)) {position : Nat}
    (active : Active call track position) : track.trackId ∉ ids tracker.removedStracks := by
  intro removed
  obtain before | new := valid.active_old partitions made active
  · exact apart removed before
  · obtain ⟨created, listed, same⟩ := List.mem_map.mp new
    obtain ⟨pair, member, rfl⟩ := List.mem_map.mp listed
    have above := ((call_counted made).2 pair member).1
    have known := valid.counted _ (List.mem_append_right _ removed)
    omega

theorem Valid.next_apart (valid : Valid tracker count) (partitions : Partitions calls)
    (made : update calls objects fps numFrames count tracker = call)
    (apart : List.Disjoint (ids tracker.removedStracks)
      (ids tracker.trackedStracks ++ ids tracker.lostStracks)) (none : call.expired = []) :
    List.Disjoint (ids call.tracker.removedStracks)
      (ids call.tracker.trackedStracks ++ ids call.tracker.lostStracks) := by
  intro id removed used
  rw [call_removed made, Call.removedStracks, none, List.append_nil, ids_append] at removed
  obtain tracked | lost := List.mem_append.mp used
  · obtain ⟨track, position, rfl, active⟩ := valid.tracked_active partitions made tracked
    obtain before | marked := List.mem_append.mp removed
    · exact valid.removed_unused partitions made apart active before
    · obtain ⟨unconfirmed, listed, same⟩ := List.mem_map.mp marked
      obtain other | other := valid.active_apart partitions made active (removed_mem listed) same
      · cases other
      · cases other
  · obtain ⟨track, subtracted, rfl⟩ := List.mem_map.mp ((ids_sublist (call_lost made)).subset lost)
    obtain ⟨absent, fate⟩ := valid.mem_subtracted partitions made subtracted
    obtain before | marked := List.mem_append.mp removed
    · exact absent before
    · obtain ⟨unconfirmed, listed, same⟩ := List.mem_map.mp marked
      obtain ⟨_, _, _, _, silent⟩ | pushed := fate
      · exact silent _ (removed_mem listed) same
      · subst made
        cases valid.pushed_eq_of_id partitions pushed (removed_mem listed) same.symm

theorem Valid.next_recent (valid : Valid tracker count) (partitions : Partitions calls)
    (timed : Timed tracker) (spared : Spared calls objects tracker)
    (made : update calls objects fps numFrames count tracker = call) :
    ∀ track ∈ call.tracker.lostStracks,
      call.tracker.frameId - track.frameId ≤ max call.tracker.maxTimeLost 1 := by
  intro track member
  have now : call.tracker.frameId = tracker.frameId + 1 := by
    subst made
    rfl
  have buffer : call.tracker.maxTimeLost = tracker.maxTimeLost := by
    subst made
    rfl
  rw [now, buffer]
  obtain ⟨_, ⟨old, before, scanned, _, silent⟩ | pushed⟩ :=
    valid.mem_subtracted partitions made ((call_lost made).subset member)
  · rw [scanned.trackId] at silent
    subst made
    have waits := of_decide_eq_false (valid.spared_waits partitions spared before silent)
    have same := scanned.frameId
    simp only [Tracker.now, STrack.endFrame] at waits
    omega
  · subst made
    obtain ⟨_, old, before, _, _, same⟩ := valid.origin partitions pushed
    have current := timed.tracked old before
    omega

/-- The calls of a run spare every lost track. -/
def SparedBy (calls : Calls F) (process : Process F) : Event F → Prop
  | .update objects _ _ => Spared calls objects process.tracker
  | .nextId => True

instance (process : Process F) : (event : Event F) → Decidable (SparedBy calls process event)
  | .update objects _ _ => inferInstanceAs (Decidable (Spared calls objects process.tracker))
  | .nextId => .isTrue trivial

variable {start process next : Process F} {event : Event F} {events : List (Event F)}

theorem step_settled (partitions : Partitions calls) (spared : SparedBy calls process event)
    (settled : Settled process) (taken : step calls event process = some next) : Settled next := by
  obtain ⟨known, timed, recent, apart⟩ := settled
  have again := step_known partitions known taken
  cases event with
  | nextId =>
    cases taken
    exact ⟨again, timed, recent, apart⟩
  | update objects fps numFrames =>
    cases taken
    refine ⟨again, ?_, ?_, ?_⟩
    · exact known.valid.next_timed partitions timed rfl
    · exact known.valid.next_recent partitions timed spared rfl
    · exact known.valid.next_apart partitions rfl apart (known.valid.spared_expired partitions spared rfl)

/-- The ids the calls of a run mark removed. -/
def marked (calls : Calls F) : List (Event F) → Process F → List Int
  | [], _ => []
  | event :: rest, process =>
    (match event with
      | .update objects fps numFrames =>
        ids (update calls objects fps numFrames process.count process.tracker).removedStracks
      | .nextId => []) ++
    (step calls event process).elim [] (marked calls rest)

/-- `removed_stracks` only grows, by the marked ids. -/
theorem run_marked (executed : run (step calls) events start = some process) :
    ids process.tracker.removedStracks = ids start.tracker.removedStracks ++ marked calls events start := by
  induction events generalizing start with
  | nil =>
    cases executed
    exact (List.append_nil _).symm
  | cons event rest ih =>
    obtain ⟨next, taken, remaining⟩ := Option.bind_eq_some_iff.mp executed
    rw [ih remaining]
    cases event with
    | nextId =>
      cases taken
      rfl
    | update objects fps numFrames =>
      cases taken
      rw [call_removed rfl, ids_append, List.append_assoc]
      rfl

/-- The pool of a call holds tracked and lost tracks. -/
theorem Valid.pool_old (valid : Valid tracker count)
    (made : update calls objects fps numFrames count tracker = call) (pooled : track ∈ call.pool) :
    track.trackId ∈ ids tracker.trackedStracks ++ ids tracker.lostStracks := by
  subst made
  obtain ⟨pointer, _, seen⟩ := List.mem_filterMap.mp pooled
  obtain ⟨old, there, same, _⟩ := valid.met seen
  rw [same]
  apply List.mem_append.mpr
  cases pointer with
  | left index => exact .inl (mem_ids (get?_left_mem there))
  | right index => exact .inr (mem_ids (get?_right_mem there))

/-- What one more call cannot do with the ids marked so far, and how long ago the
tracks it re-activates were matched. -/
structure TerminalCall (marked : List Int) (tracker : Tracker F) (call : Call F) : Prop where
  pool : ∀ id ∈ ids call.pool, id ∉ marked
  used : ∀ use ∈ call.used, use.1 ∉ marked
  output : ∀ id ∈ ids call.output, id ∉ marked
  recent : ∀ track position, .refind track position ∈ call.pushed →
    ∃ old ∈ tracker.lostStracks, old.trackId = track.trackId ∧
      tracker.now - old.frameId ≤ max tracker.maxTimeLost 1 + 1

/-- Removal is final: the ids marked so far are in no list of live tracks, and no
call finds them again. -/
structure Terminal (calls : Calls F) (marked : List Int) (process : Process F) : Prop where
  tracked : ∀ id ∈ ids process.tracker.trackedStracks, id ∉ marked
  lost : ∀ id ∈ ids process.tracker.lostStracks, id ∉ marked
  next : ∀ objects fps numFrames, TerminalCall marked process.tracker
    (update calls objects fps numFrames process.count process.tracker)

theorem Settled.terminalCall (settled : Settled process) (partitions : Partitions calls)
    (made : update calls objects fps numFrames process.count process.tracker = call) :
    TerminalCall (ids process.tracker.removedStracks) process.tracker call := by
  obtain ⟨known, _, recent, apart⟩ := settled
  have valid := known.valid
  refine ⟨fun id member removed => ?_, fun use member => ?_, fun id member => ?_,
    fun track position refound => ?_⟩
  · obtain ⟨track, pooled, rfl⟩ := List.mem_map.mp member
    exact apart removed (valid.pool_old made pooled)
  · obtain ⟨track, same, active⟩ := Active.of_used member
    exact same ▸ valid.removed_unused partitions made apart active
  · have tracked := (ids_sublist (call_output made)).subset member
    obtain ⟨track, position, rfl, active⟩ := valid.tracked_active partitions made tracked
    exact valid.removed_unused partitions made apart active
  · subst made
    obtain ⟨_, old, member, same⟩ := valid.origin partitions refound
    refine ⟨old, member, same, ?_⟩
    have waited := recent old member
    simp only [Tracker.now]
    omega

/-- In every run whose expiry scans mark no track, a track marked removed stays so. -/
theorem removed_terminal (partitions : Partitions calls) (fresh : Fresh start)
    (spared : Along (step calls) (SparedBy calls) events start)
    (executed : run (step calls) events start = some process) :
    Terminal calls (marked calls events start) process := by
  have settled : Settled process := by
    refine run_keeps Settled ?_ spared fresh.settled executed
    exact fun _ _ _ spared settled taken => step_settled partitions spared settled taken
  have recorded : ids process.tracker.removedStracks = marked calls events start := by
    rw [run_marked executed, fresh.removedStracks]
    rfl
  rw [← recorded]
  refine ⟨fun id member removed => ?_, fun id member removed => ?_,
    fun objects fps numFrames => settled.terminalCall partitions rfl⟩
  · exact settled.apart removed (List.mem_append_left _ member)
  · exact settled.apart removed (List.mem_append_right _ member)

/-- Besides the object there is another one in the second frame only. -/
def briefEvents : List (Event ℚ) :=
  [seen 1, .update [sampleObject, { sampleObject with x := 400 }] 30 2, seen 3, seen 4]

/-- The track of the other object is marked removed in the third frame. -/
theorem removed_terminal_sample : ∃ process,
    run (step sampleCalls) briefEvents sampleStart = some process ∧
      marked sampleCalls briefEvents sampleStart = [2] ∧
      Terminal sampleCalls (marked sampleCalls briefEvents sampleStart) process :=
  ⟨_, rfl, by decide +kernel,
    removed_terminal sampleCalls_partitions sampleStart_fresh (by decide +kernel) rfl⟩

/-- The track of the object is marked removed in the third frame, stays lost, and is
found again in the fourth. -/
theorem removed_comes_back : ∃ process,
    run (step sampleCalls) [seen 1, missed 2, missed 3] sampleStart = some process ∧
    1 ∈ marked sampleCalls [seen 1, missed 2, missed 3] sampleStart ∧
    1 ∈ ids process.tracker.lostStracks ∧
    1 ∈ ids (update sampleCalls [sampleObject] 30 4 process.count process.tracker).output ∧
    ¬Terminal sampleCalls (marked sampleCalls [seen 1, missed 2, missed 3] sampleStart) process := by
  have marks : 1 ∈ marked sampleCalls [seen 1, missed 2, missed 3] sampleStart := by decide +kernel
  refine ⟨_, rfl, marks, by decide +kernel, by decide +kernel, fun terminal => ?_⟩
  exact terminal.lost 1 (by decide +kernel) marks

/-- A lost track that the first round does not match is not pushed. -/
theorem Valid.unmatched_silent (valid : Valid tracker count) (partitions : Partitions calls)
    (member : old ∈ tracker.lostStracks)
    (unmatched : ∀ pair ∈ (firstRound calls objects tracker).matched,
      tracker.idAt pair.1 ≠ some old.trackId) :
    ∀ entry ∈ (afterThird calls objects tracker).2, entry.track.trackId ≠ old.trackId := by
  intro entry pushed same
  obtain ⟨index, there⟩ := List.mem_iff_getElem?.mp member
  have here : tracker.idAt (.right index) = some old.trackId :=
    congrArg (Option.map STrack.trackId) (there : tracker.store.get? (.right index) = some old)
  obtain ⟨turn, taken, id⟩ := (valid.entry_turn partitions pushed).1
  have pointed := valid.pointer_eq (id.trans (congrArg some same)) here
  have visited := List.mem_map_of_mem (f := Visit.pointer) taken
  have lefts (activated : Bool) : Pointer.right index ∉ tracker.pointers activated := by
    intro listed
    obtain ⟨_, _, other, _⟩ := mem_pointers.mp listed
    cases other
  rw [pointed] at visited
  have place := (valid.turns_perm partitions objects).subset visited
  rw [List.mem_append, List.mem_append] at place
  obtain matched | left | unconfirmed := place
  · obtain ⟨pair, listed, pointer⟩ := List.mem_map.mp matched
    exact unmatched pair listed (pointer ▸ here)
  · exact lefts true ((valid.mem_rTrackedStracks partitions).mp left).2
  · exact lefts false unconfirmed

/-- A call that does not spare a lost track has one that is overdue after the rounds. -/
theorem Valid.unspared_overdue (valid : Valid tracker count) (partitions : Partitions calls)
    (timed : Timed tracker) (unspared : ¬Spared calls objects tracker) :
    ∃ raw ∈ (afterThird calls objects tracker).1.right, tracker.overdue raw = true := by
  by_contra none
  apply unspared
  refine ⟨fun old member due => ?_, fun some => ?_⟩
  · by_contra unmatched
    obtain ⟨raw, right, same, ⟨position, refound⟩ | rfl⟩ := valid.right_of_lost partitions objects member
    · have silent := valid.unmatched_silent partitions member fun pair matched here =>
        unmatched ⟨pair, matched, here⟩
      exact silent _ refound same
    · exact none ⟨_, right, due⟩
  · obtain ⟨old, member⟩ := List.exists_mem_of_ne_nil _ some
    obtain ⟨raw, right, _, fate⟩ := valid.right_of_lost partitions objects member
    have waits : ¬tracker.now - raw.frameId > tracker.maxTimeLost := fun late =>
      none ⟨raw, right, decide_eq_true late⟩
    have past : raw.frameId ≤ tracker.now := by
      obtain ⟨position, refound⟩ | rfl := fate
      · exact (valid.origin partitions refound).1.frameId.le
      · have before := timed.lost old member
        simp only [STrack.predict_frameId, Tracker.now]
        omega
    omega

/-- A call spares the lost tracks exactly if its expiry scan marks none of them. -/
theorem Valid.spared_iff (valid : Valid tracker count) (partitions : Partitions calls) (timed : Timed tracker)
    (made : update calls objects fps numFrames count tracker = call) :
    Spared calls objects tracker ↔ call.expired = [] := by
  constructor
  · intro spared
    exact valid.spared_expired partitions spared made
  · intro none
    by_contra unspared
    obtain ⟨raw, right, due⟩ := valid.unspared_overdue partitions timed unspared
    subst made
    apply List.filter_eq_nil_iff.mp (List.map_eq_nil_iff.mp none) raw right
    exact due

/-- The defect: a call that does not spare a lost track marks a track that is among
the tracked or the lost ones when `remove_duplicate_stracks` is called. -/
theorem Settled.unspared_stays (settled : Settled process) (partitions : Partitions calls)
    (unspared : ¬Spared calls objects process.tracker)
    (made : update calls objects fps numFrames process.count process.tracker = call) :
    ∃ id ∈ ids call.removedStracks, id ∈ ids call.jointed ++ ids call.subtracted := by
  obtain ⟨⟨valid, _, _⟩, timed, _, apart⟩ := settled
  obtain ⟨raw, right, due⟩ := valid.unspared_overdue partitions timed unspared
  refine ⟨raw.trackId, ?_, ?_⟩
  · have expired : raw.markRemoved ∈ call.removedStracks := by
      subst made
      apply List.mem_append_right
      exact List.mem_map_of_mem (List.mem_filter.mpr ⟨right, due⟩)
    exact List.mem_map.mpr ⟨_, expired, rfl⟩
  · apply List.mem_append.mpr
    by_cases tracked : raw.trackId ∈ ids call.jointed
    · exact .inl tracked
    · have live : raw.trackId ∉ ids process.tracker.removedStracks := fun removed =>
        apart removed (List.mem_append_right _ (valid.right_old partitions right))
      have stays := right_subtracted made right tracked live
      rw [if_pos due] at stays
      exact .inr (List.mem_map.mpr ⟨_, stays, rfl⟩)

end Yolov5Rknn.BYTETracker

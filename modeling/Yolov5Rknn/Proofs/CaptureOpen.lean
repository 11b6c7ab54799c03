import Yolov5Rknn.V4l2Dmabuf

/-! `v4l2_dmabuf_open` keeps all it opened or nothing. At every point of the call the resources
held are those of `*out`, so that closing it is enough. -/

namespace Yolov5Rknn.V4l2Dmabuf
open Ledger

def DmaBuffer.resources (buffer : DmaBuffer) : List (Resource Kind) := buffer.va.toList ++ buffer.fd.toList

/-- The resources of a capture: its device, and of each buffer the mapping and the descriptor. -/
def owned (cap : Capture) : List (Resource Kind) :=
  cap.fd.toList ++ cap.buffers.flatMap DmaBuffer.resources

/-- A capture with nothing to release. -/
structure Closed (cap : Capture) : Prop where
  fd : cap.fd = none
  streaming : cap.streaming = false
  buffers : cap.buffers = []

/-- A failed call released what it had opened. -/
structure Abandoned (before : System) (out : Capture) (after : System) : Prop where
  holds : Holds before.ledger [] after.ledger
  settled : Settled before.ledger after.ledger
  closed : Closed out

/-- A buffer with its two resources. -/
def Backed (buffer : DmaBuffer) : Prop :=
  ∃ fd va, buffer.fd = some fd ∧ buffer.va = some va ∧ fd.kind = .descriptor ∧ va.kind = .mapping

/-- The buffers offered to the device, in order. -/
def requests (device : Resource Kind) (buffers : List DmaBuffer) :
    List (Option (Resource Kind) × Int × Option (Resource Kind)) :=
  buffers.zipIdx.map fun (buffer, index) => (some device, (index : Int), buffer.fd)

/-- A call that fails abandons everything, one that succeeds keeps what is wanted. -/
def AllOrNothing (before : System) (whole : Capture → System → Prop) : Except String Unit × Capture × System → Prop
  | (.error _, out, after) => Abandoned before out after
  | (.ok (), out, after) => whole out after

variable {before ledger : Ledger Kind} {held : List (Resource Kind)} {cap : Capture} {system start : System}

/-! ### Closing -/

theorem freed {buffers : List DmaBuffer} (holds : Holds before (buffers.flatMap DmaBuffer.resources ++ held) ledger) :
    Holds before held (buffers.foldl dmaBufFree ledger) := by
  induction buffers generalizing ledger with
  | nil => exact holds
  | cons buffer rest ih =>
    unfold DmaBuffer.resources at holds
    rw [List.flatMap_cons, List.append_assoc, List.append_assoc] at holds
    exact ih holds.releaseHandle.releaseHandle

theorem freed_log (buffers : List DmaBuffer) (ledger : Ledger Kind) :
    (buffers.foldl dmaBufFree ledger).log = ledger.log ++ (buffers.flatMap DmaBuffer.resources).map .released := by
  induction buffers generalizing ledger with
  | nil => exact (List.append_nil _).symm
  | cons buffer rest ih =>
    rw [List.foldl_cons, ih, dmaBufFree, releaseHandle_log, releaseHandle_log, List.flatMap_cons, DmaBuffer.resources]
    simp only [List.map_append, List.append_assoc]

/-- Closing releases what the capture owns, and does nothing else with resources. -/
theorem close_log (cap : Capture) (system : System) :
    (v4l2DmabufClose cap system).2.ledger.log = system.ledger.log ++ (owned cap).map .released := by
  unfold v4l2DmabufClose owned
  rw [freed_log, releaseHandle_log, List.map_append, List.append_assoc]

/-- Closing a capture leaves the other resources held. -/
theorem close_holds (holds : Holds before (owned cap ++ held) system.ledger) :
    Holds before held (v4l2DmabufClose cap system).2.ledger := by
  unfold owned at holds
  rw [List.append_assoc] at holds
  exact freed holds.releaseHandle

theorem close_closed (cap : Capture) (system : System) : Closed (v4l2DmabufClose cap system).1 := ⟨rfl, rfl, rfl⟩

theorem abandoned (holds : Holds start.ledger [] system.ledger) (closed : Closed cap) : Abandoned start cap system :=
  ⟨holds, holds.settled_iff.mpr rfl, closed⟩

theorem close_abandoned (holds : Holds start.ledger (owned cap) system.ledger) :
    Abandoned start (v4l2DmabufClose cap system).1 (v4l2DmabufClose cap system).2 := by
  rw [← List.append_nil (owned cap)] at holds
  exact abandoned (close_holds holds) (close_closed cap system)

/-- Closing a closed capture changes nothing. -/
theorem Closed.again (closed : Closed cap) (system : System) : v4l2DmabufClose cap system = (cap, system) := by
  obtain ⟨fd, streaming, buffers⟩ := closed
  obtain ⟨⟩ := cap
  dsimp only at fd streaming buffers
  subst fd streaming buffers
  rfl

/-! ### One buffer -/

/-- What `dma_buf_alloc` leaves: what was held, or a descriptor and a mapping more. -/
inductive Allocated (before : Ledger Kind) (held : List (Resource Kind)) :
    Option (Resource Kind × Resource Kind) × Ledger Kind → Prop where
  | failed {after} (holds : Holds before held after) : Allocated before held (none, after)
  | backed {fd va after} (descriptor : fd.kind = .descriptor) (mapping : va.kind = .mapping)
      (holds : Holds before (va :: fd :: held) after) : Allocated before held (some (fd, va), after)

theorem dmaBufAlloc_allocated (calls : Allocation) (holds : Holds before held ledger) :
    Allocated before held (dmaBufAlloc calls ledger) := by
  unfold dmaBufAlloc
  dsimp only
  have heap := holds.acquire .descriptor
  split
  · exact .failed holds
  · split
    · exact .failed heap.release
    · -- the heap's descriptor is closed before the mapping is made
      have buffer := ((heap.acquire .descriptor).perm (.swap ..)).release
      split
      · exact .failed buffer.release
      · exact .backed rfl rfl (buffer.acquire .mapping)

theorem empty_resources (count : Nat) :
    (List.replicate count ({} : DmaBuffer)).flatMap DmaBuffer.resources = [] := by
  apply List.flatMap_eq_nil_iff.mpr
  intro buffer mem
  rw [List.eq_of_mem_replicate mem]
  rfl

/-- Storing in an empty slot adds the resources of what is stored. -/
theorem resources_set {buffers first rest : List DmaBuffer} (slots : buffers = first ++ ({} : DmaBuffer) :: rest)
    (new : DmaBuffer) :
    buffers.set first.length new = first ++ new :: rest ∧
      ((buffers.set first.length new).flatMap DmaBuffer.resources).Perm
        (new.resources ++ buffers.flatMap DmaBuffer.resources) := by
  have stored : buffers.set first.length new = first ++ new :: rest := by
    rw [slots, List.set_append_right _ _ le_rfl, Nat.sub_self, List.set_cons_zero]
  refine ⟨stored, ?_⟩
  rw [stored, slots, List.flatMap_append, List.flatMap_append, List.flatMap_cons, List.flatMap_cons]
  exact List.perm_append_comm_assoc _ _ _

theorem owned_set {first rest : List DmaBuffer} (slots : cap.buffers = first ++ ({} : DmaBuffer) :: rest)
    (new : DmaBuffer) :
    (owned { cap with buffers := cap.buffers.set first.length new }).Perm (new.resources ++ owned cap) :=
  ((resources_set slots new).2.append_left _).trans (List.perm_append_comm_assoc _ _ _)

/-! ### The loop -/

/-- Where the loop is: the buffers before its counter are backed and queued, the others empty. -/
structure Filling (start : System) (device : Resource Kind) (filled : List DmaBuffer) (more : Nat) (cap : Capture)
    (system : System) : Prop where
  opened : cap.fd = some device
  buffers : cap.buffers = filled ++ List.replicate more ({} : DmaBuffer)
  backed : ∀ buffer ∈ filled, Backed buffer
  holds : Holds start.ledger (owned cap) system.ledger
  queued : system.queued = start.queued ++ requests device filled

variable {answers : Answers} {device : Resource Kind} {filled : List DmaBuffer} {more : Nat}

theorem toInt_eq {n : Nat} (fits : n < 4294967296) (nonneg : 0 ≤ toInt n) : toInt n = n := by
  unfold toInt at nonneg ⊢
  rw [Int.bmod_def] at nonneg ⊢
  omega

theorem requests_append (buffer : DmaBuffer) :
    requests device (filled ++ [buffer]) =
      requests device filled ++ [(some device, (filled.length : Int), buffer.fd)] := by
  unfold requests
  rw [List.zipIdx_append, List.map_append, Nat.zero_add]
  rfl

/-- A buffer that was queued is the next of those filled. -/
theorem Filling.store {new : DmaBuffer} {granted : Bool} {middle later : System}
    (filling : Filling start device filled (more + 1) cap system) (fits : filled.length < 4294967296)
    (queued : v4l2DmabufQbuf granted { cap with buffers := cap.buffers.set filled.length new } (toInt filled.length)
      middle = (true, later))
    (backed : Backed new) (holds : Holds start.ledger (new.resources ++ owned cap) middle.ledger)
    (same : middle.queued = system.queued) :
    Filling start device (filled ++ [new]) more { cap with buffers := cap.buffers.set filled.length new } later := by
  have slots : cap.buffers = filled ++ ({} : DmaBuffer) :: List.replicate more {} := filling.buffers
  have stored := (resources_set slots new).1
  unfold v4l2DmabufQbuf at queued
  split at queued
  case isTrue => cases queued
  case isFalse passed =>
    push Not at passed
    have index : toInt filled.length = filled.length := toInt_eq fits passed.2.1
    cases queued
    refine ⟨filling.opened, ?_, ?_, holds.perm (owned_set slots new).symm, ?_⟩
    · exact stored.trans (List.append_cons ..)
    · intro buffer mem
      rcases List.mem_append.mp mem with old | last
      · exact filling.backed buffer old
      · exact List.mem_singleton.mp last ▸ backed
    · dsimp only
      rw [index, stored, same, filling.queued, filling.opened, requests_append, List.append_assoc]
      simp

theorem qbuf_ledger (granted : Bool) (cap : Capture) (index : Int) (system : System) :
    (v4l2DmabufQbuf granted cap index system).2.ledger = system.ledger := by
  unfold v4l2DmabufQbuf
  split
  · rfl
  · rfl

theorem openBuffers_filled (answers : Answers) (filling : Filling start device filled more cap system)
    (fits : filled.length + more ≤ 4294967296) :
    AllOrNothing start
      (fun out after => ∃ all, all.length = filled.length + more ∧ Filling start device all 0 out after)
      (openBuffers answers more filled.length cap system) := by
  induction more generalizing filled cap system with
  | zero => exact ⟨filled, rfl, filling⟩
  | succ more ih =>
    have slots : cap.buffers = filled ++ ({} : DmaBuffer) :: List.replicate more {} := filling.buffers
    have allocated := dmaBufAlloc_allocated (answers.allocation filled.length) filling.holds
    unfold openBuffers
    generalize dmaBufAlloc (answers.allocation filled.length) system.ledger = result at allocated
    cases allocated with
    | failed holds => exact close_abandoned (holds.perm (owned_set slots { size := cap.plane0Size }).symm)
    | @backed fd va after descriptor mapping holds =>
      dsimp only
      generalize hnew : ({ fd := some fd, va := some va, size := cap.plane0Size } : DmaBuffer) = new
      have backed : Backed new := hnew ▸ ⟨fd, va, rfl, rfl, descriptor, mapping⟩
      have holds : Holds start.ledger (new.resources ++ owned cap) after := hnew ▸ holds
      split
      case isTrue =>
        -- the refused buffer is already in `*out`
        apply close_abandoned
        rw [qbuf_ledger]
        exact holds.perm (owned_set slots new).symm
      case isFalse queued =>
        have next := filling.store (by omega) (Prod.ext (Bool.eq_true_of_not_eq_false queued) rfl) backed holds rfl
        have rest := ih next (by rw [List.length_append, List.length_singleton]; omega)
        rw [List.length_append, List.length_singleton, Nat.add_right_comm] at rest
        exact rest

/-! ### The call -/

/-- A call that succeeded: `*out` owns the device and what backs each of the granted buffers,
all of them queued. -/
structure Opened (answers : Answers) (start : System) (out : Capture) (after : System) : Prop where
  device : ∃ device, out.fd = some device ∧ device.kind = .descriptor ∧
    after.queued = start.queued ++ requests device out.buffers
  streaming : out.streaming = true
  granted : answers.reqBufs.map UInt32.toNat = some out.buffers.length
  backed : ∀ buffer ∈ out.buffers, Backed buffer
  holds : Holds start.ledger (owned out) after.ledger
  distinct : (owned out).Nodup

theorem startCapture_opened {out : Capture} {count : UInt32} (granted : answers.reqBufs = some count)
    (opened : out.fd = some device) (descriptor : device.kind = .descriptor)
    (buffers : out.buffers = List.replicate count.toNat {}) (same : system.queued = start.queued)
    (holds : Holds start.ledger (owned out) system.ledger) :
    AllOrNothing start (Opened answers start) (startCapture answers out system) := by
  have fits := count.toNat_lt
  have length : out.buffers.length = count.toNat := by rw [buffers, List.length_replicate]
  have filling : Filling start device [] count.toNat out system :=
    ⟨opened, buffers, fun _ mem => absurd mem List.not_mem_nil, holds, same.trans (List.append_nil _).symm⟩
  have looped := openBuffers_filled answers filling (by rw [List.length_nil]; omega)
  unfold startCapture
  rw [length]
  rw [List.length_nil] at looped
  generalize openBuffers answers count.toNat 0 out system = result at looped
  obtain ⟨_ | _, cap, after⟩ := result
  · exact looped
  · obtain ⟨all, counted, filled⟩ := looped
    have whole : cap.buffers = all := filled.buffers.trans (List.append_nil _)
    dsimp only
    split
    · exact close_abandoned filled.holds
    · refine ⟨⟨device, filled.opened, descriptor, whole ▸ filled.queued⟩, rfl, ?_, whole ▸ filled.backed,
        filled.holds, filled.holds.nodup⟩
      rw [granted, Option.map_some, whole, counted, Nat.zero_add]

theorem v4l2DmabufOpen_opened (answers : Answers) (system : System) :
    AllOrNothing system (Opened answers system) (v4l2DmabufOpen answers system) := by
  have nothing := Holds.refl system.ledger
  have opened := nothing.acquire .descriptor
  have failed err : AllOrNothing system (Opened answers system) (.error err, {}, { system with
      ledger := (system.ledger.acquire .descriptor).release (system.ledger.fresh .descriptor) }) :=
    abandoned opened.release ⟨rfl, rfl, rfl⟩
  unfold v4l2DmabufOpen
  dsimp only
  split
  · exact abandoned nothing ⟨rfl, rfl, rfl⟩
  · split
    · exact failed _
    · exact failed _
    · rename_i bufType mplane fmt count _ granted
      split
      · exact failed _
      · have owns : owned (prepared (system.ledger.fresh .descriptor) bufType mplane fmt count) =
            [system.ledger.fresh .descriptor] := congrArg (_ ++ ·) (empty_resources _)
        exact startCapture_opened granted rfl rfl rfl rfl (owns ▸ opened)

/-! ### The transcoder -/

def TransCoder.resources (coder : TransCoder) : List (Resource Kind) :=
  owned coder.dmabufCapture ++ coder.outputDmaBuffers.flatMap DmaBuffer.resources

theorem allocateOutputs_holds (output : Nat → Allocation) (size : Nat) {buffers : List DmaBuffer}
    (slots : buffers = filled ++ List.replicate more ({} : DmaBuffer))
    (holds : Holds before (buffers.flatMap DmaBuffer.resources ++ held) ledger) :
    Holds before
      ((allocateOutputs output size more filled.length buffers ledger).2.1.flatMap DmaBuffer.resources ++ held)
      (allocateOutputs output size more filled.length buffers ledger).2.2 := by
  induction more generalizing filled buffers ledger with
  | zero => exact holds
  | succ more ih =>
    have slots : buffers = filled ++ ({} : DmaBuffer) :: List.replicate more {} := slots
    have allocated := dmaBufAlloc_allocated (output filled.length) holds
    unfold allocateOutputs
    generalize dmaBufAlloc (output filled.length) ledger = result at allocated
    cases allocated with
    | failed holds => exact holds.perm (((resources_set slots { size }).2.append_right held).symm)
    | @backed fd va after _ _ holds =>
      have stored := resources_set slots { fd, va, size }
      have next := holds.perm (stored.2.append_right held).symm
      have rest := ih (stored.1.trans (List.append_cons ..)) next
      rw [List.length_append, List.length_singleton] at rest
      exact rest

theorem outputs_holds (output : Nat → Allocation) (size count : Nat) (holds : Holds before held ledger) :
    Holds before
      (held ++ (allocateOutputs output size count 0 (List.replicate count {}) ledger).2.1.flatMap DmaBuffer.resources)
      (allocateOutputs output size count 0 (List.replicate count {}) ledger).2.2 := by
  have empty : Holds before ((List.replicate count {}).flatMap DmaBuffer.resources ++ held) ledger := by
    rw [empty_resources]
    exact holds
  have allocated := allocateOutputs_holds output size (List.nil_append _).symm empty
  exact allocated.perm List.perm_append_comm

/-- The transcoder with a capture that it closes. -/
theorem closing_holds {buffers : List DmaBuffer}
    (holds : Holds before (TransCoder.resources ⟨cap, buffers⟩) system.ledger) :
    Holds before (TransCoder.resources ⟨(v4l2DmabufClose cap system).1, buffers⟩)
      (v4l2DmabufClose cap system).2.ledger :=
  close_holds holds

theorem init_holds (answers : Answers) (setup : Setup) (width height : Int) (rknnThread : Nat) (system : System) :
    Holds system.ledger (init answers setup width height rknnThread system).1.resources
      (init answers setup width height rknnThread system).2.ledger := by
  have opened := v4l2DmabufOpen_opened answers system
  unfold init
  dsimp only
  generalize v4l2DmabufOpen answers system = result at opened
  obtain ⟨_ | _, cap, after⟩ := result
  · -- the capture is closed already
    dsimp only
    rw [opened.closed.again, TransCoder.resources, owned, opened.closed.fd, opened.closed.buffers]
    exact opened.holds
  · have alone : Holds system.ledger (TransCoder.resources ⟨cap, []⟩) after.ledger := by
      unfold TransCoder.resources
      rw [List.flatMap_nil, List.append_nil]
      exact opened.holds
    have outputs size := outputs_holds setup.output size rknnThread opened.holds
    dsimp only
    split
    · exact closing_holds alone
    · split
      · exact closing_holds alone
      · split
        · exact outputs _
        · split
          · exact closing_holds (outputs _)
          · split
            · exact closing_holds (outputs _)
            · split
              · exact closing_holds (outputs _)
              · exact outputs _

theorem destroy_settled {coder : TransCoder} (holds : Holds before coder.resources system.ledger) :
    Settled before (destroy coder system).ledger := by
  have buffers := close_holds holds
  rw [← List.append_nil (List.flatMap _ _)] at buffers
  exact (freed buffers).settled_iff.mpr rfl

/-- Opening a capture keeps all or nothing, closing it releases what it owns, closing it again
releases nothing, and after the destructor nothing is left. -/
theorem capture_all_or_nothing (answers : Answers) (system : System) :
    AllOrNothing system (Opened answers system) (v4l2DmabufOpen answers system) ∧
      (let (_, out, after) := v4l2DmabufOpen answers system
       let (closed, released) := v4l2DmabufClose out after
       Abandoned system closed released) ∧
      (∀ cap : Capture, ∀ now : System,
        let (closed, released) := v4l2DmabufClose cap now
        released.ledger.log = now.ledger.log ++ (owned cap).map .released ∧
          ∀ later, v4l2DmabufClose closed later = (closed, later)) ∧
      ∀ setup width height rknnThread,
        let (coder, after) := init answers setup width height rknnThread system
        Settled system.ledger (destroy coder after).ledger := by
  have opened := v4l2DmabufOpen_opened answers system
  refine ⟨opened, ?_, ?_, ?_⟩
  · generalize v4l2DmabufOpen answers system = result at opened
    obtain ⟨_ | _, out, after⟩ := result
    · have again := opened.closed.again after
      dsimp only
      rw [again]
      exact opened
    · exact close_abandoned opened.holds
  · intro cap now
    exact ⟨close_log cap now, (close_closed cap now).again⟩
  · intro setup width height rknnThread
    exact destroy_settled (init_holds answers setup width height rknnThread system)

end Yolov5Rknn.V4l2Dmabuf

import Yolov5Rknn.RkEncoder

/-! When the encoder gives back all it takes. The resources held between two steps of a call
are those of its handles; a handle that is still set at the end of a call is a leak. -/

namespace Yolov5Rknn.RkEncoder
open Transition Ledger

/-- Everything taken since was given back exactly once, and the external group is empty. -/
structure Tidy (start : Ledger Kind) (encoder : Encoder) : Prop where
  settled : Settled start encoder.ledger
  group : ∀ committed, encoder.dmaGroup = some committed → committed = []

/-- The calls that lose a frame or a packet: `encode` does not give back the frame that could
not be put, and neither function the packet that could not be copied. -/
def Leaks (encoder : Encoder) : Call → Prop
  | .encode calls outbuf =>
    calls.frameInit = true ∧
      (calls.encodePutFrame = false ∨
        calls.encodeGetPacket = some true ∧ (outbuf = false ∨ calls.getHdrSync = false))
  | .encodeDmabuf calls dmaFd dmaPtr outbuf =>
    ¬(dmaFd < 0 ∨ dmaPtr = false ∨ outbuf = false ∨ encoder.dmaGroup = none) ∧
      calls.bufferCommit = true ∧ calls.bufferGet = true ∧ calls.frameInit = true ∧
        calls.encodePutFrame = true ∧ calls.encodeGetPacket = some true ∧ calls.getHdrSync = false

instance (encoder : Encoder) : (call : Call) → Decidable (Leaks encoder call)
  | .encode .. => inferInstanceAs (Decidable (_ ∧ _))
  | .encodeDmabuf .. => inferInstanceAs (Decidable (_ ∧ _))

/-- The resources held are those of the two handles and some others. -/
def Owns (start : Ledger Kind) (others : List (Resource Kind)) (encoder : Encoder) : Prop :=
  Holds start (encoder.packet.toList ++ (encoder.frame.toList ++ others)) encoder.ledger

/-- Between two calls no handle is set. -/
structure Clean (start : Ledger Kind) (encoder : Encoder) : Prop where
  frame : encoder.frame = none
  packet : encoder.packet = none
  owns : Owns start [] encoder
  group : ∀ committed, encoder.dmaGroup = some committed → committed = []

variable {start : Ledger Kind} {others : List (Resource Kind)} {encoder : Encoder} {calls : Outcomes} {outbuf : Bool}

/-! ### The steps of a call -/

theorem Owns.initFrame (owns : Owns start others encoder) (null : encoder.frame = none) :
    Owns start others encoder.initFrame := by
  unfold Owns at owns
  rw [null] at owns
  exact (owns.acquire .frame).perm List.perm_middle.symm

theorem Owns.deinitFrame (owns : Owns start others encoder) : Owns start others encoder.deinitFrame := by
  have front : Holds start (encoder.frame.toList ++ (encoder.packet.toList ++ others)) encoder.ledger := by
    refine owns.perm ?_
    rw [← List.append_assoc, ← List.append_assoc]
    exact List.perm_append_comm.append_right others
  exact front.releaseHandle

theorem Owns.getPacket (owns : Owns start others encoder) (null : encoder.packet = none) (given : Bool) :
    Owns start others (encoder.getPacket given) := by
  unfold Owns at owns
  rw [null] at owns
  exact owns.request .packet given

theorem Owns.deinitPacket (owns : Owns start others encoder) : Owns start others encoder.deinitPacket :=
  owns.releaseHandle

/-- The header's packet and buffer are given back on both paths, the encoder's packet on one. -/
theorem copyPacketToBuffer_owns (owns : Owns start others encoder) :
    Owns start others (copyPacketToBuffer calls outbuf encoder).2 := by
  unfold copyPacketToBuffer
  split
  · exact owns
  · have header := (owns.request .buffer calls.headerBufferGet).request .packet calls.packetInitWithBuffer
    dsimp only
    split
    · exact header.releaseHandle.releaseHandle
    · exact Owns.deinitPacket header.releaseHandle.releaseHandle

theorem copyPacketToBuffer_group : (copyPacketToBuffer calls outbuf encoder).2.dmaGroup = encoder.dmaGroup := by
  unfold copyPacketToBuffer
  split
  · rfl
  · dsimp only
    split <;> rfl

theorem copyPacketToBuffer_packet :
    (copyPacketToBuffer calls outbuf encoder).2.packet = none ↔
      encoder.packet = none ∨ outbuf = true ∧ calls.getHdrSync = true := by
  unfold copyPacketToBuffer
  split
  · next skipped =>
    refine (or_iff_left_of_imp ?_).symm
    rintro ⟨set, _⟩
    exact skipped.resolve_right (by simp [set])
  · next copied =>
    rw [not_or, Bool.not_eq_false] at copied
    dsimp only
    split
    · next failed => simp [copied.1, failed]
    · next synced =>
      rw [Bool.not_eq_false] at synced
      exact iff_of_true rfl (.inr ⟨copied.2, synced⟩)

/-- The end of both functions: the packet that came is copied and the frame given back. -/
theorem delivered (calls : Outcomes) (outbuf : Bool) (owns : Owns start others encoder)
    (null : encoder.packet = none) (given : Bool) :
    Owns start others (copyPacketToBuffer calls outbuf (encoder.getPacket given)).2.deinitFrame ∧
      (copyPacketToBuffer calls outbuf (encoder.getPacket given)).2.dmaGroup = encoder.dmaGroup ∧
      ((copyPacketToBuffer calls outbuf (encoder.getPacket given)).2.deinitFrame.packet = none ↔
        ¬(given = true ∧ (outbuf = false ∨ calls.getHdrSync = false))) := by
  refine ⟨(copyPacketToBuffer_owns (owns.getPacket null given)).deinitFrame, copyPacketToBuffer_group, ?_⟩
  refine copyPacketToBuffer_packet.trans ?_
  cases given <;> cases outbuf <;> cases calls.getHdrSync <;> simp [Encoder.getPacket, Ledger.request]

/-- The external buffer is one of the others that a call holds. -/
theorem Owns.getBuffer (owns : Owns start [] encoder) (granted : Bool) (group : Option (List Int)) :
    Owns start (encoder.ledger.request .buffer granted).1.toList
      { encoder with dmaGroup := group, ledger := (encoder.ledger.request .buffer granted).2 } := by
  refine (owns.request .buffer granted).perm ?_
  dsimp only
  rw [List.append_nil, ← List.append_assoc encoder.packet.toList]
  exact List.perm_append_comm

/-- It is put back and the group cleared. -/
theorem Owns.putBuffer {handle : Option (Resource Kind)} (owns : Owns start handle.toList encoder) :
    Owns start [] (Encoder.clearGroup { encoder with ledger := encoder.ledger.releaseHandle handle }) := by
  have front : Holds start (handle.toList ++ (encoder.packet.toList ++ (encoder.frame.toList ++ [])))
      encoder.ledger := by
    refine owns.perm ?_
    rw [List.append_nil, ← List.append_assoc]
    exact List.perm_append_comm
  exact front.releaseHandle

theorem clearGroup_empty {committed : List Int} (same : encoder.clearGroup.dmaGroup = some committed) :
    committed = [] := by
  obtain ⟨_, _, rfl⟩ := Option.map_eq_some_iff.mp same
  rfl

/-! ### The calls -/

/-- What a call leaves; a handle is set if it leaks. -/
structure Leaves (start : Ledger Kind) (leaks : Prop) (after : Encoder) : Prop where
  owns : Owns start [] after
  group : ∀ committed, after.dmaGroup = some committed → committed = []
  handles : (after.frame = none ∧ after.packet = none) ↔ ¬leaks

theorem encode_leaves (clean : Clean start encoder) :
    Leaves start (Leaks encoder (.encode calls outbuf)) (encode calls outbuf encoder).2 := by
  obtain ⟨frame, packet, owns, group⟩ := clean
  unfold encode Leaks
  dsimp only
  split
  · next failed => exact ⟨owns, group, by simp [frame, packet, failed]⟩
  · next started =>
    rw [Bool.not_eq_false] at started
    have begun := owns.initFrame frame
    split
    · next refused => exact ⟨begun, group, by simp [started, refused, Encoder.initFrame]⟩
    · next put =>
      rw [Bool.not_eq_false] at put
      split
      · next missing =>
        exact ⟨begun.deinitFrame, group, by simp [put, missing, Encoder.deinitFrame, Encoder.initFrame, packet]⟩
      · next given found =>
        obtain ⟨ends, unchanged, left⟩ := delivered calls outbuf begun packet given
        refine ⟨ends, fun committed same => group committed (unchanged.symm.trans same), ?_⟩
        refine Iff.trans ?_ (left.trans ?_)
        · exact ⟨fun handles => handles.2, fun null => ⟨rfl, null⟩⟩
        · simp [started, put, found]

theorem encodeCommitted_leaves (calls : Outcomes) (dmaFd : Int) (clean : Clean start encoder) :
    Leaves start (calls.bufferCommit = true ∧ calls.bufferGet = true ∧ calls.frameInit = true ∧
        calls.encodePutFrame = true ∧ calls.encodeGetPacket = some true ∧ calls.getHdrSync = false)
      (encodeCommitted calls dmaFd encoder).2 := by
  obtain ⟨frame, packet, owns, group⟩ := clean
  unfold encodeCommitted
  dsimp only
  split
  · next failed => exact ⟨owns, group, by simp [frame, packet, failed]⟩
  · next committed =>
    rw [Bool.not_eq_false] at committed
    have taken := owns.getBuffer calls.bufferGet (encoder.dmaGroup.map fun committed => committed ++ [dmaFd])
    split
    · next failed =>
      rw [failed] at taken ⊢
      exact ⟨taken, fun _ => clearGroup_empty, by simp [frame, packet, Encoder.clearGroup]⟩
    · next got =>
      rw [Bool.not_eq_false] at got
      split
      · next failed =>
        exact ⟨taken.putBuffer, fun _ => clearGroup_empty, by simp [frame, packet, failed, Encoder.clearGroup]⟩
      · next started =>
        rw [Bool.not_eq_false] at started
        have begun := taken.initFrame frame
        split
        · next refused =>
          refine ⟨begun.deinitFrame.putBuffer, fun _ => clearGroup_empty, ?_⟩
          simp [refused, packet, Encoder.clearGroup, Encoder.deinitFrame, Encoder.initFrame]
        · next put =>
          rw [Bool.not_eq_false] at put
          split
          · next missing =>
            refine ⟨begun.deinitFrame.putBuffer, fun _ => clearGroup_empty, ?_⟩
            simp [missing, packet, Encoder.clearGroup, Encoder.deinitFrame, Encoder.initFrame]
          · next given found =>
            obtain ⟨ends, _, left⟩ := delivered calls true begun packet given
            refine ⟨ends.putBuffer, fun _ => clearGroup_empty, Iff.trans ?_ (left.trans ?_)⟩
            · exact ⟨fun handles => handles.2, fun null => ⟨rfl, null⟩⟩
            · simp [committed, got, started, put, found]

theorem encodeDmabuf_leaves (clean : Clean start encoder) {dmaFd : Int} {dmaPtr : Bool} :
    Leaves start (Leaks encoder (.encodeDmabuf calls dmaFd dmaPtr outbuf))
      (encodeDmabuf calls dmaFd dmaPtr outbuf encoder).2 := by
  unfold encodeDmabuf
  split
  · next refused => exact ⟨clean.owns, clean.group, by simp [Leaks, clean.frame, clean.packet, refused]⟩
  · next accepted =>
    have left := encodeCommitted_leaves calls dmaFd clean
    exact ⟨left.owns, left.group, left.handles.trans (by simp [Leaks, accepted])⟩

theorem call_leaves (clean : Clean start encoder) (call : Call) :
    ∃ after, step call encoder = some after ∧ Leaves start (Leaks encoder call) after := by
  cases call with
  | encode calls outbuf => exact ⟨_, rfl, encode_leaves clean⟩
  | encodeDmabuf calls dmaFd dmaPtr outbuf => exact ⟨_, rfl, encodeDmabuf_leaves clean⟩

/-- A call that leaves no handle set has given everything back, and no other one has. -/
theorem Leaves.tidy_iff {leaks : Prop} (leaves : Leaves start leaks encoder) : Tidy start encoder ↔ ¬leaks := by
  rw [← leaves.handles]
  have settled := leaves.owns.settled_iff
  constructor
  · intro tidy
    have none := settled.mp tidy.settled
    simpa [Option.toList_eq_nil_iff, and_comm] using none
  · rintro ⟨frame, packet⟩
    exact ⟨settled.mpr (by simp [frame, packet]), leaves.group⟩

theorem Leaves.clean {leaks : Prop} (leaves : Leaves start leaks encoder) (kept : ¬leaks) : Clean start encoder :=
  ⟨(leaves.handles.mpr kept).1, (leaves.handles.mpr kept).2, leaves.owns, leaves.group⟩

theorem Clean.tidy (clean : Clean start encoder) : Tidy start encoder :=
  ⟨clean.owns.settled_iff.mpr (by simp [clean.frame, clean.packet]), clean.group⟩

theorem create_clean (dmaGroup : Bool) : Clean ⟨0, []⟩ (create dmaGroup) where
  frame := rfl
  packet := rfl
  owns := .refl _
  group := by cases dmaGroup <;> simp [create]

theorem run_tidy_iff (clean : Clean start encoder) (calls : List Call) :
    (∀ first last, first ++ last = calls → ∀ after, run step first encoder = some after → Tidy start after) ↔
      Along step (fun encoder call => ¬Leaks encoder call) calls encoder := by
  induction calls generalizing encoder with
  | nil =>
    refine iff_of_true (fun first last whole after executed => ?_) trivial
    obtain ⟨rfl, rfl⟩ := List.append_eq_nil_iff.mp whole
    cases executed
    exact clean.tidy
  | cons call rest ih =>
    obtain ⟨next, taken, leaves⟩ := call_leaves clean call
    constructor
    · intro tidy
      have kept : ¬Leaks encoder call := leaves.tidy_iff.mp (tidy [call] rest rfl next (by simp [taken]))
      refine ⟨kept, fun other same => ?_⟩
      cases taken.symm.trans same
      refine (ih (leaves.clean kept)).mp fun first last whole after executed => ?_
      exact tidy (call :: first) last (by rw [List.cons_append, whole]) after (by simpa [taken] using executed)
    · rintro ⟨kept, later⟩ first last whole after executed
      cases first with
      | nil =>
        cases executed
        exact clean.tidy
      | cons other first =>
        obtain ⟨rfl, rest'⟩ := List.cons_eq_cons.mp whole
        rw [run_cons, taken] at executed
        exact (ih (leaves.clean kept)).mpr (later next taken) first last rest' after executed

/-- After every call of a run everything taken was given back exactly once and the external
group is empty, if and only if no call of the run leaks. -/
theorem encoder_tidy_iff (dmaGroup : Bool) (calls : List Call) :
    (∀ first last, first ++ last = calls → ∀ after, run step first (create dmaGroup) = some after →
        Tidy ⟨0, []⟩ after) ↔
      Along step (fun encoder call => ¬Leaks encoder call) calls (create dmaGroup) :=
  run_tidy_iff (create_clean dmaGroup) calls

/-- An MPP library of which only the frame is refused. -/
def refusing : Outcomes where
  bufferCommit := true
  bufferGet := true
  frameInit := true
  encodePutFrame := false
  encodeGetPacket := some true
  headerBufferGet := true
  packetInitWithBuffer := true
  getHdrSync := true
  lenExtraInfo := 30
  lenVideoData := 100

/-- The frame that `encode` could not put stays with the encoder. -/
theorem encode_loses_frame :
    ¬∀ calls : List Call, ∀ after, run step calls (create true) = some after → Tidy ⟨0, []⟩ after := by
  intro all
  have tidy := all [.encode refusing true] _ rfl
  exact absurd ((encode_leaves (create_clean true)).tidy_iff.mp tidy) (by decide)

end Yolov5Rknn.RkEncoder

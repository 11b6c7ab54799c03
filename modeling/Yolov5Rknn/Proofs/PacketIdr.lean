import Yolov5Rknn.TransCoder
import Yolov5Rknn.CamFramedSource
import Yolov5Rknn.Logic.ByteStream

/-! What `run` hands to the source of a packet, and what `hasNaluType` finds in it: the
headers of the packet's units. -/

namespace Yolov5Rknn.CamFramedSource
open ByteStream

variable {data : List UInt8} {byte : UInt8}

theorem header_iff :
    [0, 0, 1, byte] <:+: data ↔
      ∃ i : Nat, data[i]? = some 0 ∧ data[i + 1]? = some 0 ∧ data[i + 2]? = some 1 ∧ data[i + 3]? = some byte := by
  constructor
  · rintro ⟨before, after, rfl⟩
    rw [List.append_assoc]
    refine ⟨before.length, ?_, ?_, ?_, ?_⟩ <;>
      rw [List.getElem?_append_right (by omega)] <;> simp
  · rintro ⟨i, first, second, third, fourth⟩
    obtain ⟨inside, last⟩ := List.getElem?_eq_some_iff.mp fourth
    refine List.infix_iff_getElem?.mpr ⟨i, by simp; omega, fun k below => ?_⟩
    match k, below with
    | 0, _ => simpa using first
    | 1, _ => rwa [Nat.add_comm]
    | 2, _ => rwa [Nat.add_comm]
    | 3, _ => rwa [Nat.add_comm]

/-- The bytes the loop looks at; a start code of four bytes ends in one of three. -/
theorem nalPos_iff :
    (∃ i, i < data.length - 3 ∧ data[nalPos data i]? = some byte) ↔ [0, 0, 1, byte] <:+: data := by
  rw [header_iff]
  constructor
  · rintro ⟨i, _, found⟩
    unfold nalPos at found
    split at found
    · next three => exact ⟨i, three.1, three.2.1, three.2.2, found⟩
    · split at found
      · next four => exact ⟨i + 1, four.2.2.1, four.2.2.2.1, four.2.2.2.2, found⟩
      · rw [List.getElem?_eq_none (Nat.le_refl _)] at found
        cases found
  · rintro ⟨i, first, second, third, fourth⟩
    obtain ⟨inside, _⟩ := List.getElem?_eq_some_iff.mp fourth
    refine ⟨i, by omega, ?_⟩
    rw [nalPos, if_pos ⟨first, second, third⟩]
    exact fourth

theorem hasNaluType_iff {targetType : UInt8} :
    hasNaluType data targetType = true ↔
      ∃ byte, (data.head? = some byte ∨ [0, 0, 1, byte] <:+: data) ∧ byte &&& 0x1f = targetType := by
  cases data with
  | nil => simp [hasNaluType]
  | cons first rest =>
    simp only [hasNaluType, Bool.or_eq_true, beq_iff_eq, List.any_eq_true, List.mem_range, Option.any_eq_true]
    constructor
    · rintro (same | ⟨i, below, byte, found, same⟩)
      · exact ⟨first, .inl rfl, same⟩
      · exact ⟨byte, .inr (nalPos_iff.mp ⟨i, below, found⟩), same⟩
    · rintro ⟨byte, start | marked, same⟩
      · cases start
        exact .inl same
      · obtain ⟨i, below, found⟩ := nalPos_iff.mpr marked
        exact .inr ⟨i, below, byte, found, same⟩

/-- The start code that `startCode3` tells is the one that was written. -/
theorem startCode_stream (code : StartCode) (unit : NalUnit) (rest : List (StartCode × NalUnit))
    (stale : List UInt8) : TransCoder.startCode (stream ((code, unit) :: rest) ++ stale) = code.bytes.length := by
  rw [stream_cons]
  cases code <;> rfl

theorem payload_stream (code : StartCode) (unit : NalUnit) (rest : List (StartCode × NalUnit))
    (stale : List UInt8) :
    TransCoder.payload (stream ((code, unit) :: rest) ++ stale) (stream ((code, unit) :: rest)).length =
      some (unit.bytes ++ stream rest) := by
  have length : code.bytes.length ≤ (stream ((code, unit) :: rest)).length := by
    rw [stream_cons, List.length_append]
    exact Nat.le_add_right ..
  unfold TransCoder.payload
  rw [startCode_stream, if_neg (by omega), Int.toNat_natCast, List.take_left', stream_cons, List.drop_left']
  · rfl
  · rfl

/-- From a packet of NAL units in the encoder's buffer, `run` strips the first start code, and
`hasNaluType` finds the types in the headers of the units. -/
theorem packet_types (code : StartCode) (unit : NalUnit) (rest : List (StartCode × NalUnit))
    (stale : List UInt8) :
    ∃ data, TransCoder.payload (stream ((code, unit) :: rest) ++ stale)
        (stream ((code, unit) :: rest)).length = some data ∧ data.head? = some unit.header ∧
      ∀ targetType, hasNaluType data targetType = true ↔
        ∃ one ∈ (code, unit) :: rest, one.2.header &&& 0x1f = targetType := by
  refine ⟨_, payload_stream .., rfl, fun targetType => ?_⟩
  rw [hasNaluType_iff]
  constructor
  · rintro ⟨byte, first | marked, same⟩
    · cases first
      exact ⟨(code, unit), List.mem_cons_self, same⟩
    · obtain ⟨one, mem, rfl⟩ := (marked_stream rest).mp ((marked_append unit.free unit.ends).mp marked)
      exact ⟨one, List.mem_cons_of_mem _ mem, same⟩
  · rintro ⟨one, mem, same⟩
    refine ⟨one.2.header, ?_, same⟩
    rcases List.mem_cons.mp mem with rfl | later
    · exact .inl rfl
    · exact .inr ((marked_append unit.free unit.ends).mpr ((marked_stream rest).mpr ⟨one, later, rfl⟩))

example : hasNaluType (NalUnit.bytes ⟨0x67, [0x42], by decide, by decide⟩ ++
    stream [(.three, ⟨0x65, [0x88], by decide, by decide⟩)]) 5 = true := by decide

end Yolov5Rknn.CamFramedSource

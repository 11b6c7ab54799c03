import Mathlib.Data.List.Basic

/-! The byte stream format of NAL units: each unit follows a start code of three or four
bytes. No start code appears but those between the units, as a unit holds none and ends
in no zero. -/

namespace Yolov5Rknn.ByteStream

/-- A NAL unit, which has a header byte, holds no start code and ends in no zero. -/
structure NalUnit where
  header : UInt8
  rest : List UInt8
  free : ¬[0, 0, 1] <:+: header :: rest
  ends : (header :: rest).getLast? ≠ some 0

def NalUnit.bytes (unit : NalUnit) : List UInt8 := unit.header :: unit.rest

inductive StartCode where
  | three
  | four
  deriving DecidableEq

def StartCode.bytes : StartCode → List UInt8
  | .three => [0, 0, 1]
  | .four => [0, 0, 0, 1]

/-- The units of a packet, each after its start code. -/
def stream (units : List (StartCode × NalUnit)) : List UInt8 :=
  units.flatMap fun (code, unit) => code.bytes ++ unit.bytes

theorem stream_cons (code : StartCode) (unit : NalUnit) (rest : List (StartCode × NalUnit)) :
    stream ((code, unit) :: rest) = code.bytes ++ (unit.bytes ++ stream rest) :=
  List.append_assoc ..

variable {byte : UInt8} {after : List UInt8}

/-- Bytes without a start code and with another last byte than zero end before any start code. -/
theorem marked_append {bytes : List UInt8} (free : ¬[0, 0, 1] <:+: bytes) (ends : bytes.getLast? ≠ some 0) :
    [0, 0, 1, byte] <:+: bytes ++ after ↔ [0, 0, 1, byte] <:+: after := by
  refine ⟨fun marked => ?_, List.infix_append_of_infix_right⟩
  induction bytes with
  | nil => exact marked
  | cons first bytes ih =>
    rw [List.cons_append, List.infix_cons_iff] at marked
    rcases marked with here | later
    · -- the start code cannot begin in the bytes, whether it ends in them or behind them
      match bytes with
      | [] =>
        obtain ⟨rfl, _⟩ := List.cons_prefix_cons.mp here
        exact absurd rfl ends
      | [second] =>
        simp only [List.cons_append, List.cons_prefix_cons] at here
        obtain ⟨_, rfl, _⟩ := here
        exact absurd rfl ends
      | second :: third :: bytes =>
        simp only [List.cons_append, List.cons_prefix_cons] at here
        obtain ⟨rfl, rfl, rfl, _⟩ := here
        exact absurd ⟨[], bytes, rfl⟩ free
    · refine ih (fun inside => free (List.infix_cons inside)) (fun zero => ends ?_) later
      rw [List.getLast?_cons, zero]
      rfl

/-- A start code is followed by the first byte behind it. -/
theorem marked_code (code : StartCode) (next : UInt8) :
    [0, 0, 1, byte] <:+: code.bytes ++ next :: after ↔
      byte = next ∨ [0, 0, 1, byte] <:+: next :: after := by
  cases code <;> simp [StartCode.bytes, List.infix_cons_iff (a := (0 : UInt8)),
    List.infix_cons_iff (a := (1 : UInt8))]

/-- The bytes after the start codes are the headers. -/
theorem marked_stream (units : List (StartCode × NalUnit)) :
    [0, 0, 1, byte] <:+: stream units ↔ ∃ unit ∈ units, unit.2.header = byte := by
  induction units with
  | nil => simp [stream]
  | cons pair units ih =>
    obtain ⟨code, unit⟩ := pair
    rw [stream_cons, NalUnit.bytes, List.cons_append, marked_code, ← List.cons_append,
      marked_append unit.free unit.ends, ih, List.exists_mem_cons_iff, eq_comm]

end Yolov5Rknn.ByteStream

import Yolov5Rknn.NearNeighborDisMetric
import Mathlib.Data.List.Nodup

/-! What `partial_fit` makes of a gallery, case by case, and of the galleries of all
its targets. -/

namespace Yolov5Rknn.DeepSort
open Program

variable {F : Type} {rows block : List (Feature F)} {unwritten : Feature F}

theorem readBlock_eq {start count : Nat} (inside : start + count ≤ rows.length) :
    readBlock rows start count = pure ((rows.drop start).take count) := by
  have range : (0 : Int) ≤ start ∧ (0 : Int) ≤ count ∧ (start : Int) + count ≤ rows.length := by omega
  rw [readBlock, if_pos range]
  simp

theorem writeBlock_eq {start : Nat} (inside : start + block.length ≤ rows.length) :
    writeBlock rows start block.length block =
      pure (rows.take start ++ block ++ rows.drop (start + block.length)) := by
  have range : (0 : Int) ≤ start ∧ (block.length : Int) = block.length ∧
      (start : Int) + block.length ≤ rows.length := by omega
  rw [writeBlock, if_pos range]
  simp

/-- Two blocks that fill what they are written to. -/
theorem write_both {first last : List (Feature F)} {m k : Int} (one : m = first.length) (two : k = last.length)
    (length : rows.length = first.length + last.length) :
    (writeBlock rows 0 m first >>= fun rows => writeBlock rows m k last) = pure (first ++ last) := by
  subst one two
  have start : writeBlock rows (0 : Nat) first.length first =
      pure (rows.take 0 ++ first ++ rows.drop (0 + first.length)) := writeBlock_eq (by omega)
  rw [Nat.cast_zero] at start
  rw [start, pure_bind, writeBlock_eq (by simp; omega)]
  have full : (rows.drop first.length).length = last.length := by simp [length]
  congr 1
  simp [length]

theorem readBlock_steady {rows : List (Feature F)} {start count : Int} : Steady (readBlock rows start count) := by
  unfold readBlock
  split
  · exact .pure
  · exact .outOfRange

theorem writeBlock_steady {rows block : List (Feature F)} {start count : Int} :
    Steady (writeBlock rows start count block) := by
  unfold writeBlock
  split
  · exact .pure
  · exact .outOfRange

namespace NearNeighborDisMetric

variable {budget : Nat} {sample newFeatOne : List (Feature F)}

theorem slide_grow (room : sample.length + newFeatOne.length ≤ budget) :
    slide budget unwritten sample newFeatOne = pure (sample ++ newFeatOne) := by
  have small : (sample.length : Int) + newFeatOne.length ≤ budget := by omega
  simp only [slide, if_pos small]
  exact write_both rfl rfl (by rw [List.length_replicate]; omega)

theorem slide_batch (beyond : budget < sample.length + newFeatOne.length) (batch : budget ≤ newFeatOne.length) :
    slide budget unwritten sample newFeatOne = pure (newFeatOne.take budget) := by
  have large : ¬(sample.length : Int) + newFeatOne.length ≤ budget := by omega
  have many : (budget : Int) ≤ newFeatOne.length := by omega
  have read : readBlock newFeatOne (0 : Nat) budget = pure ((newFeatOne.drop 0).take budget) :=
    readBlock_eq (by omega)
  simp only [slide, if_neg large, if_pos many, ite_self]
  simpa using read

/-- Both cases that move the window: the rows kept start one row too early in a full
gallery, and where they belong if one row is free. -/
theorem slide_move (beyond : budget < sample.length + newFeatOne.length) (few : newFeatOne.length < budget)
    (near : budget ≤ sample.length + 1) (bounded : sample.length ≤ budget) :
    slide budget unwritten sample newFeatOne =
      pure ((sample.drop (newFeatOne.length - 1)).take (budget - newFeatOne.length) ++ newFeatOne) := by
  have large : ¬(sample.length : Int) + newFeatOne.length ≤ budget := by omega
  have less : ¬(budget : Int) ≤ newFeatOne.length := by omega
  have start : (newFeatOne.length : Int) - 1 = (newFeatOne.length - 1 : Nat) := by omega
  have count : (budget : Int) - newFeatOne.length = (budget - newFeatOne.length : Nat) := by omega
  have read : readBlock sample (newFeatOne.length - 1 : Nat) (budget - newFeatOne.length : Nat) =
      pure ((sample.drop (newFeatOne.length - 1)).take (budget - newFeatOne.length)) :=
    readBlock_eq (by omega)
  have kept : ((sample.drop (newFeatOne.length - 1)).take (budget - newFeatOne.length)).length =
      budget - newFeatOne.length := by
    rw [List.length_take, List.length_drop]
    omega
  simp only [slide, if_neg large, if_neg less, start, count, read, pure_bind]
  split
  · exact write_both (by rw [kept]) rfl (by rw [kept, List.length_replicate]; omega)
  · exact write_both (by rw [kept]) rfl (by rw [kept]; omega)

theorem slide_outside (beyond : budget < sample.length + newFeatOne.length) (few : newFeatOne.length < budget)
    (far : sample.length + 1 < budget) : slide budget unwritten sample newFeatOne = outOfRange := by
  have large : ¬(sample.length : Int) + newFeatOne.length ≤ budget := by omega
  have less : ¬(budget : Int) ≤ newFeatOne.length := by omega
  have below : (sample.length : Int) < budget := by omega
  have outside : ¬((0 : Int) ≤ newFeatOne.length - 1 ∧ (0 : Int) ≤ budget - newFeatOne.length ∧
      (newFeatOne.length : Int) - 1 + (budget - newFeatOne.length) ≤ sample.length) := by omega
  simp only [slide, if_neg large, if_neg less, if_pos below, readBlock, if_neg outside]
  rfl

/-- The gallery `partial_fit` gives one target. -/
def fitted (unwritten : Feature F) (metric : NearNeighborDisMetric F) (data : Int × List (Feature F)) :
    Prog (List (Feature F)) :=
  match metric.samples data.1 with
  | some sample => slide metric.budget unwritten sample data.2
  | none => pure data.2

variable {metric after : NearNeighborDisMetric F} {tidFeats : List (Int × List (Feature F))} {rounds : Nat}

theorem fitOne_eq (unwritten : Feature F) (metric : NearNeighborDisMetric F) (data : Int × List (Feature F)) :
    fitOne unwritten metric data = fitted unwritten metric data >>= fun sample =>
      pure { metric with samples := Function.update metric.samples data.1 (some sample) } := by
  cases known : metric.samples data.1 <;> simp [fitOne, fitted, known]

theorem fitted_other {data other : Int × List (Feature F)} {sample : List (Feature F)}
    (apart : other.1 ≠ data.1) :
    fitted unwritten { metric with samples := Function.update metric.samples data.1 (some sample) } other =
      fitted unwritten metric other := by
  simp only [fitted, Function.update_of_ne apart]

/-- While the first loop runs, the targets still to come are as they were and the
others have their galleries. -/
structure Fitting (unwritten : Feature F) (rounds : Nat) (before : NearNeighborDisMetric F)
    (tidFeats rest : List (Int × List (Feature F))) (metric : NearNeighborDisMetric F) : Prop where
  distinct : (rest.map Prod.fst).Nodup
  budget : metric.budget = before.budget ∧ metric.matingThreshold = before.matingThreshold
  waiting : ∀ data ∈ rest, fitted unwritten metric data = fitted unwritten before data
  done : ∀ data ∈ tidFeats, data ∈ rest ∨
    data.1 ∉ rest.map Prod.fst ∧ ∃ sample, fitted unwritten before data rounds = .ok sample ∧
      metric.samples data.1 = some sample

theorem Fitting.next {before : NearNeighborDisMetric F} {data : Int × List (Feature F)}
    {rest : List (Int × List (Feature F))} {sample : List (Feature F)}
    (fitting : Fitting unwritten rounds before tidFeats (data :: rest) metric)
    (taken : fitted unwritten metric data rounds = .ok sample) :
    Fitting unwritten rounds before tidFeats rest
      { metric with samples := Function.update metric.samples data.1 (some sample) } := by
  obtain ⟨fresh, distinct⟩ := List.nodup_cons.mp fitting.distinct
  refine ⟨distinct, fitting.budget, fun other member => ?_, fun other member => ?_⟩
  · have apart : other.1 ≠ data.1 := fun same => fresh (same ▸ List.mem_map_of_mem member)
    rw [fitted_other apart]
    exact fitting.waiting other (List.mem_cons_of_mem _ member)
  · obtain waiting | ⟨gone, known, computed, stored⟩ := fitting.done other member
    · obtain rfl | later := List.mem_cons.mp waiting
      · refine .inr ⟨fresh, sample, ?_, Function.update_self ..⟩
        rw [← fitting.waiting other List.mem_cons_self]
        exact taken
      · exact .inl later
    · rw [List.map_cons, List.mem_cons, not_or] at gone
      exact .inr ⟨gone.2, known, computed, (Function.update_of_ne gone.1 ..).trans stored⟩

theorem fitting_start (distinct : (tidFeats.map Prod.fst).Nodup) :
    Fitting unwritten rounds metric tidFeats tidFeats metric :=
  ⟨distinct, ⟨rfl, rfl⟩, fun _ _ => rfl, fun _ member => .inl member⟩

/-- The galleries of a `partial_fit` that returned. -/
theorem partialFit_result (distinct : (tidFeats.map Prod.fst).Nodup)
    (returned : partialFit unwritten tidFeats (tidFeats.map Prod.fst) metric rounds = .ok after) :
    (after.budget = metric.budget ∧ after.matingThreshold = metric.matingThreshold) ∧
      (∀ data ∈ tidFeats, ∃ sample, fitted unwritten metric data rounds = .ok sample ∧
        after.samples data.1 = some sample) ∧
      ∀ target, target ∉ tidFeats.map Prod.fst → after.samples target = none := by
  obtain ⟨last, folded, finished⟩ := bind_result.mp returned
  obtain rfl := pure_result.mp finished
  have fitting := foldlM_result (Fitting unwritten rounds metric tidFeats)
    (fun data rest state next fitting taken => by
      rw [fitOne_eq] at taken
      obtain ⟨sample, computed, stored⟩ := bind_result.mp taken
      obtain rfl := pure_result.mp stored
      exact fitting.next computed)
    (fitting_start distinct) folded
  refine ⟨fitting.budget, fun data member => ?_, fun target absent => if_neg absent⟩
  obtain waiting | ⟨_, sample, computed, stored⟩ := fitting.done data member
  · cases waiting
  · exact ⟨sample, computed, (if_pos (List.mem_map_of_mem member)).trans stored⟩

/-- It returns if every target's gallery is computed in range. -/
theorem partialFit_returns (distinct : (tidFeats.map Prod.fst).Nodup) (activeTargets : List Int)
    (all : ∀ data ∈ tidFeats, ∃ sample, fitted unwritten metric data rounds = .ok sample) :
    ∃ after, partialFit unwritten tidFeats activeTargets metric rounds = .ok after := by
  have run (rest : List (Int × List (Feature F))) (state : NearNeighborDisMetric F)
      (fitting : Fitting unwritten rounds metric tidFeats rest state) (inside : ∀ data ∈ rest, data ∈ tidFeats) :
      ∃ last, rest.foldlM (fitOne unwritten) state rounds = .ok last := by
    induction rest generalizing state with
    | nil => exact ⟨state, rfl⟩
    | cons data rest ih =>
      obtain ⟨sample, computed⟩ := all data (inside data List.mem_cons_self)
      rw [← fitting.waiting data List.mem_cons_self] at computed
      obtain ⟨last, continued⟩ := ih _ (fitting.next computed) fun other member =>
        inside other (List.mem_cons_of_mem _ member)
      refine ⟨last, ?_⟩
      rw [List.foldlM_cons, fitOne_eq]
      exact bind_result.mpr ⟨_, bind_result.mpr ⟨sample, computed, rfl⟩, continued⟩
  obtain ⟨last, folded⟩ := run tidFeats metric (fitting_start distinct) fun _ member => member
  exact ⟨_, bind_result.mpr ⟨last, folded, rfl⟩⟩

theorem slide_steady {budget : Int} {unwritten : Feature F} {sample newFeatOne : List (Feature F)} :
    Steady (slide budget unwritten sample newFeatOne) := by
  unfold slide
  dsimp only
  split
  · exact writeBlock_steady.bind fun _ => writeBlock_steady
  · split
    · split
      · exact readBlock_steady
      · exact readBlock_steady.bind fun _ => writeBlock_steady.bind fun _ => writeBlock_steady
    · split
      · exact readBlock_steady
      · exact readBlock_steady.bind fun _ => writeBlock_steady.bind fun _ => writeBlock_steady

theorem fitOne_steady {unwritten : Feature F} {metric : NearNeighborDisMetric F} {data : Int × List (Feature F)} :
    Steady (fitOne unwritten metric data) := by
  unfold fitOne
  split
  · exact slide_steady.bind fun _ => .pure
  · exact .pure

/-- `partial_fit` has no loop but those over its arguments. -/
theorem partialFit_steady {activeTargets : List Int} :
    Steady (partialFit unwritten tidFeats activeTargets metric) :=
  (Steady.foldlM (fun _ _ => fitOne_steady) tidFeats metric).bind fun _ => .pure

end NearNeighborDisMetric
end Yolov5Rknn.DeepSort

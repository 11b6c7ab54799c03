import Yolov5Rknn.Proofs.GalleryFit
import Yolov5Rknn.Logic.Transition
import Mathlib.Data.Fintype.Basic

/-! Which rows the galleries hold over whole runs of `partial_fit`, beside the rows
contributed for each target: the newest ones as long as no full gallery moves its
window and no batch overflows it. -/

namespace Yolov5Rknn.DeepSort.NearNeighborDisMetric
open Program Transition

section newest

variable {α : Type} {budget : Nat} {old new : List α}

/-- The last `budget` rows. -/
def newest (budget : Nat) (rows : List α) : List α := rows.drop (rows.length - budget)

theorem length_newest (rows : List α) : (newest budget rows).length ≤ budget := by
  rw [newest, List.length_drop]
  omega

theorem newest_short (short : old.length ≤ budget) : newest budget old = old := by
  rw [newest, Nat.sub_eq_zero_of_le short, List.drop_zero]

/-- Rows dropped before a contribution are not among the newest after it. -/
theorem newest_append : newest budget (newest budget old ++ new) = newest budget (old ++ new) := by
  by_cases short : old.length ≤ budget
  · rw [newest_short short]
  · have shift : newest budget old ++ new = (old ++ new).drop (old.length - budget) := by
      rw [newest, List.drop_append_of_le_length (by omega)]
    rw [shift, newest, newest, List.drop_drop, List.length_drop, List.length_append]
    congr 1
    omega

end newest

variable {F : Type} {budget : Nat} {unwritten : Feature F} {sample newFeatOne : List (Feature F)}

/-- `slide` leaves the newest rows: they all fit, one row was free, or the rows it keeps
happen to be equal to those it should keep. -/
def InPlace (budget : Nat) (sample newFeatOne : List (Feature F)) : Prop :=
  sample.length + newFeatOne.length ≤ budget ∨
    newFeatOne.length < budget ∧ (sample.length + 1 = budget ∨ sample.length = budget ∧
      (sample.drop (newFeatOne.length - 1)).take (budget - newFeatOne.length) =
        sample.drop newFeatOne.length) ∨
    budget ≤ newFeatOne.length ∧ newFeatOne.take budget = newFeatOne.drop (newFeatOne.length - budget)

theorem slide_newest_iff (bounded : sample.length ≤ budget) (rounds : Nat) :
    slide budget unwritten sample newFeatOne rounds = .ok (newest budget (sample ++ newFeatOne)) ↔
      InPlace budget sample newFeatOne := by
  by_cases room : sample.length + newFeatOne.length ≤ budget
  · rw [slide_grow room, newest_short (by rw [List.length_append]; exact room)]
    exact ⟨fun _ => .inl room, fun _ => rfl⟩
  have beyond : budget < sample.length + newFeatOne.length := by omega
  by_cases batch : budget ≤ newFeatOne.length
  · have last : newest budget (sample ++ newFeatOne) = newFeatOne.drop (newFeatOne.length - budget) := by
      rw [newest, List.length_append, List.drop_append, List.drop_of_length_le (by omega), List.nil_append]
      congr 1
      omega
    rw [slide_batch beyond batch, last, pure_result]
    refine ⟨fun same => .inr (.inr ⟨batch, same⟩), ?_⟩
    rintro (fits | ⟨few, _⟩ | ⟨_, same⟩)
    · omega
    · omega
    · exact same
  have few : newFeatOne.length < budget := by omega
  have last : newest budget (sample ++ newFeatOne) =
      sample.drop (sample.length + newFeatOne.length - budget) ++ newFeatOne := by
    rw [newest, List.length_append, List.drop_append_of_le_length (by omega)]
  by_cases far : sample.length + 1 < budget
  · rw [slide_outside beyond few far]
    refine ⟨fun faulty => (by cases faulty), ?_⟩
    rintro (fits | ⟨_, free | ⟨full, _⟩⟩ | ⟨many, _⟩) <;> omega
  rw [slide_move beyond few (by omega) bounded, last, pure_result, List.append_left_inj]
  by_cases free : sample.length + 1 = budget
  · refine ⟨fun _ => .inr (.inl ⟨few, .inl free⟩), fun _ => ?_⟩
    have start : sample.length + newFeatOne.length - budget = newFeatOne.length - 1 := by omega
    rw [start, List.take_of_length_le]
    rw [List.length_drop]
    omega
  · have full : sample.length = budget := by omega
    rw [full, Nat.add_sub_cancel_left]
    refine ⟨fun same => .inr (.inl ⟨few, .inr ⟨full, same⟩⟩), ?_⟩
    rintro (fits | ⟨_, other | ⟨_, same⟩⟩ | ⟨many, _⟩)
    · omega
    · omega
    · exact same
    · omega

/-- The feature rows of a call, one entry for each active target. -/
abbrev Contribution (F : Type) := List (Int × List (Feature F))

/-- The metric, and all rows contributed for each target since it became active. -/
structure Ledger (F : Type) where
  metric : NearNeighborDisMetric F
  contributed : Int → Option (List (Feature F))

def contribute (call : Contribution F) (contributed : Int → Option (List (Feature F))) :
    Int → Option (List (Feature F)) :=
  fun target => (call.find? fun data => data.1 = target).map fun data =>
    (contributed target).getD [] ++ data.2

/-- A call as `tracker::update` makes it; `partial_fit` has no loop to bound. -/
def fit (unwritten : Feature F) : Step (Contribution F) (Ledger F) := fun call ledger =>
  (partialFit unwritten call (call.map Prod.fst) ledger.metric 0).toOption.map fun metric =>
    ⟨metric, contribute call ledger.contributed⟩

def empty (matingThreshold : F) (budget : Nat) : Ledger F := ⟨⟨matingThreshold, budget, fun _ => none⟩, fun _ => none⟩

/-- Each target once, and its first rows no more than the budget. -/
def Formed (budget : Nat) (ledger : Ledger F) (call : Contribution F) : Prop :=
  (call.map Prod.fst).Nodup ∧ ∀ data ∈ call, ledger.contributed data.1 = none → data.2.length ≤ budget

/-- Every gallery holds the newest rows of its target, and no other target has one. -/
def Newest (budget : Nat) (ledger : Ledger F) : Prop :=
  ∀ target, ledger.metric.samples target = (ledger.contributed target).map (newest budget)

/-- No window moves to the wrong place. -/
def Stays (budget : Nat) (ledger : Ledger F) (call : Contribution F) : Prop :=
  ∀ data ∈ call, ∀ sample ∈ ledger.metric.samples data.1, InPlace budget sample data.2

instance Formed.decidable (ledger : Ledger F) (call : Contribution F) : Decidable (Formed budget ledger call) :=
  inferInstanceAs (Decidable (_ ∧ ∀ data ∈ call, ledger.contributed data.1 = none → data.2.length ≤ budget))

instance InPlace.decidable [DecidableEq F] (sample newFeatOne : List (Feature F)) :
    Decidable (InPlace budget sample newFeatOne) := inferInstanceAs (Decidable (_ ∨ _ ∨ _))

instance Stays.decidable [DecidableEq F] (ledger : Ledger F) (call : Contribution F) :
    Decidable (Stays budget ledger call) :=
  inferInstanceAs (Decidable (∀ data ∈ call, ∀ sample ∈ ledger.metric.samples data.1, InPlace budget sample data.2))

section step

variable {ledger next : Ledger F} {call : Contribution F}

theorem fit_result (taken : fit unwritten call ledger = some next) :
    ∃ metric, partialFit unwritten call (call.map Prod.fst) ledger.metric 0 = .ok metric ∧
      next = ⟨metric, contribute call ledger.contributed⟩ := by
  unfold fit at taken
  cases returned : partialFit unwritten call (call.map Prod.fst) ledger.metric 0 with
  | error fault => simp [returned, Except.toOption] at taken
  | ok metric => exact ⟨metric, rfl, by simpa [returned, Except.toOption] using taken.symm⟩

theorem find_target {data : Int × List (Feature F)} (distinct : (call.map Prod.fst).Nodup) (member : data ∈ call) :
    call.find? (fun other => other.1 = data.1) = some data := by
  induction call with
  | nil => cases member
  | cons first rest ih =>
    obtain ⟨fresh, distinct⟩ := List.nodup_cons.mp distinct
    obtain rfl | later := List.mem_cons.mp member
    · simp
    · have apart : first.1 ≠ data.1 := fun same => fresh (same ▸ List.mem_map_of_mem later)
      rw [List.find?_cons_of_neg (by simpa using apart), ih distinct later]

theorem contribute_target {data : Int × List (Feature F)} (distinct : (call.map Prod.fst).Nodup)
    (member : data ∈ call) (contributed : Int → Option (List (Feature F))) :
    contribute call contributed data.1 = some ((contributed data.1).getD [] ++ data.2) := by
  rw [contribute, find_target distinct member]
  rfl

theorem contribute_absent {target : Int} (absent : target ∉ call.map Prod.fst)
    (contributed : Int → Option (List (Feature F))) : contribute call contributed target = none := by
  have missing : call.find? (fun data => data.1 = target) = none := by
    apply List.find?_eq_none.mpr
    intro data member same
    exact absent (of_decide_eq_true same ▸ List.mem_map_of_mem member)
  rw [contribute, missing]
  rfl

variable (unwritten) in
/-- The gallery of a target holds its newest rows after a call exactly if it moves no
window to the wrong place. -/
theorem fitted_newest_iff {data : Int × List (Feature F)} (held : Newest budget ledger)
    (sized : ledger.metric.budget = budget) (formed : Formed budget ledger call) (member : data ∈ call) :
    fitted unwritten ledger.metric data 0 =
        .ok (newest budget ((ledger.contributed data.1).getD [] ++ data.2)) ↔
      ∀ sample, ledger.metric.samples data.1 = some sample → InPlace budget sample data.2 := by
  have known := held data.1
  cases before : ledger.contributed data.1 with
  | none =>
    rw [before, Option.map_none] at known
    have first := formed.2 data member before
    simp [fitted, known, newest_short first, pure_result]
  | some rows =>
    rw [before, Option.map_some] at known
    simp only [fitted, known, sized, Option.getD_some, Option.some.injEq, forall_eq']
    rw [← newest_append, slide_newest_iff (length_newest rows)]

variable (unwritten) in
theorem fit_newest_iff (held : Newest budget ledger) (sized : ledger.metric.budget = budget)
    (formed : Formed budget ledger call) :
    (∃ next, fit unwritten call ledger = some next ∧ Newest budget next) ↔ Stays budget ledger call := by
  constructor
  · rintro ⟨next, taken, newer⟩ data member
    apply (fitted_newest_iff unwritten held sized formed member).mp
    obtain ⟨metric, returned, rfl⟩ := fit_result taken
    obtain ⟨_, all, _⟩ := partialFit_result formed.1 returned
    obtain ⟨sample, computed, stored⟩ := all data member
    have expected : metric.samples data.1 = (contribute call ledger.contributed data.1).map (newest budget) :=
      newer data.1
    rw [contribute_target formed.1 member, Option.map_some] at expected
    rw [computed, Option.some.inj (stored.symm.trans expected)]
  · intro stays
    have computed : ∀ data ∈ call, fitted unwritten ledger.metric data 0 =
        .ok (newest budget ((ledger.contributed data.1).getD [] ++ data.2)) :=
      fun data member => (fitted_newest_iff unwritten held sized formed member).mpr (stays data member)
    obtain ⟨metric, returned⟩ := partialFit_returns formed.1 (call.map Prod.fst)
      fun data member => ⟨_, computed data member⟩
    refine ⟨⟨metric, contribute call ledger.contributed⟩, by simp [fit, returned, Except.toOption], ?_⟩
    obtain ⟨_, all, gone⟩ := partialFit_result formed.1 returned
    intro target
    change metric.samples target = (contribute call ledger.contributed target).map (newest budget)
    by_cases active : target ∈ call.map Prod.fst
    · obtain ⟨data, member, rfl⟩ := List.mem_map.mp active
      obtain ⟨sample, same, stored⟩ := all data member
      rw [computed data member] at same
      cases same
      rw [contribute_target formed.1 member]
      exact stored
    · rw [contribute_absent active]
      exact gone target active

end step

/-- Over a sequence of calls the galleries hold the newest rows after every one of them
exactly if no call moves a window to the wrong place. -/
theorem newest_iff {ledger : Ledger F} {calls : List (Contribution F)} (held : Newest budget ledger)
    (sized : ledger.metric.budget = budget) (formed : Along (fit unwritten) (Formed budget) calls ledger) :
    (∀ count ≤ calls.length, ∃ next, run (fit unwritten) (calls.take count) ledger = some next ∧
        Newest budget next) ↔
      Along (fit unwritten) (Stays budget) calls ledger := by
  induction calls generalizing ledger with
  | nil =>
    refine ⟨fun _ => trivial, fun _ count _ => ⟨ledger, ?_, held⟩⟩
    rw [List.take_nil, run_nil]
  | cons call rest ih =>
    have kept {next : Ledger F} (taken : fit unwritten call ledger = some next) :
        next.metric.budget = budget := by
      obtain ⟨metric, returned, rfl⟩ := fit_result taken
      exact (partialFit_result formed.1.1 returned).1.1.trans sized
    constructor
    · intro always
      obtain ⟨next, taken, newer⟩ := always 1 (by simp)
      rw [List.take_succ_cons, List.take_zero, run_cons] at taken
      obtain ⟨middle, taken, ended⟩ := Option.bind_eq_some_iff.mp taken
      obtain rfl : next = middle := (Option.some.inj ended).symm
      refine ⟨(fit_newest_iff unwritten held sized formed.1).mp ⟨next, taken, newer⟩, fun other again => ?_⟩
      obtain rfl : next = other := Option.some.inj (taken.symm.trans again)
      refine (ih newer (kept taken) (formed.2 next taken)).mp fun count small => ?_
      obtain ⟨last, reached, final⟩ := always (count + 1) (by simpa using small)
      rw [List.take_succ_cons, run_cons, taken] at reached
      exact ⟨last, reached, final⟩
    · intro stays count small
      cases count with
      | zero => exact ⟨ledger, rfl, held⟩
      | succ count =>
        obtain ⟨next, taken, newer⟩ := (fit_newest_iff unwritten held sized formed.1).mpr stays.1
        have onward := (ih newer (kept taken) (formed.2 next taken)).mpr (stays.2 next taken)
        obtain ⟨last, reached, final⟩ := onward count (by simpa using small)
        refine ⟨last, ?_, final⟩
        rw [List.take_succ_cons, run_cons, taken]
        exact reached

/-- From an empty metric, the samples of every active target are its newest rows after
every call, and no other target has any, exactly if no call moves the window of a full
gallery or cuts a batch to the wrong rows. -/
theorem galleries_newest_iff (matingThreshold : F) (budget : Nat) (unwritten : Feature F)
    {calls : List (Contribution F)}
    (formed : Along (fit unwritten) (Formed budget) calls (empty matingThreshold budget)) :
    (∀ count ≤ calls.length, ∃ next,
        run (fit unwritten) (calls.take count) (empty matingThreshold budget) = some next ∧
          Newest budget next) ↔
      Along (fit unwritten) (Stays budget) calls (empty matingThreshold budget) :=
  newest_iff (fun _ => rfl) rfl formed

def sampleRow (value : ℚ) : Feature ℚ := fun _ => value

theorem galleries_newest_iff_sample :
    Along (fit 0) (Stays 2) [[(1, [sampleRow 1])], [(1, [sampleRow 2]), (2, [sampleRow 3])]] (empty 0 2) ∧
      ∀ count ≤ 2, ∃ next : Ledger ℚ,
        run (fit 0) ([[(1, [sampleRow 1])], [(1, [sampleRow 2]), (2, [sampleRow 3])]].take count) (empty 0 2) =
            some next ∧ Newest 2 next := by
  have formed : Along (fit 0) (Formed 2)
      [[(1, [sampleRow 1])], [(1, [sampleRow 2]), (2, [sampleRow 3])]] (empty 0 2) := by decide +kernel
  have stays : Along (fit 0) (Stays 2)
      [[(1, [sampleRow 1])], [(1, [sampleRow 2]), (2, [sampleRow 3])]] (empty 0 2) := by decide +kernel
  exact ⟨stays, (galleries_newest_iff 0 2 0 formed).mpr stays⟩

/-- One row more for a full gallery of two drops the second row, not the first. -/
theorem window_loses_newest :
    Along (fit 0) (Formed 2) [[(1, [sampleRow 1, sampleRow 2])], [(1, [sampleRow 3])]] (empty 0 2) ∧
      ¬∀ count ≤ 2, ∃ next : Ledger ℚ,
        run (fit 0) ([[(1, [sampleRow 1, sampleRow 2])], [(1, [sampleRow 3])]].take count) (empty 0 2) =
            some next ∧ Newest 2 next := by
  have formed : Along (fit 0) (Formed 2)
      [[(1, [sampleRow 1, sampleRow 2])], [(1, [sampleRow 3])]] (empty 0 2) := by decide +kernel
  refine ⟨formed, fun always => ?_⟩
  have stays := (newest_iff (fun _ => rfl) rfl formed).mp always
  have moved : ¬Along (fit 0) (Stays 2)
      [[(1, [sampleRow 1, sampleRow 2])], [(1, [sampleRow 3])]] (empty 0 2) := by decide +kernel
  exact moved stays

end Yolov5Rknn.DeepSort.NearNeighborDisMetric

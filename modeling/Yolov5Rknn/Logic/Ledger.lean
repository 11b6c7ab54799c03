import Mathlib.Algebra.Order.Group.Nat
import Mathlib.Data.List.Count
import Mathlib.Data.List.Nodup
import Mathlib.Data.List.Perm.Basic
import Mathlib.Order.Basic

/-! A ledger of what a program acquires and releases. Every acquisition gives a resource of
its own, so that a resource forgotten, released twice or released without having been
acquired shows in the counts. -/

namespace Yolov5Rknn

structure Resource (κ : Type) where
  kind : κ
  number : Nat
  deriving DecidableEq

namespace Ledger

inductive Entry (κ : Type) where
  | acquired (resource : Resource κ)
  | released (resource : Resource κ)
  deriving DecidableEq

end Ledger

structure Ledger (κ : Type) where
  next : Nat
  log : List (Ledger.Entry κ)
  deriving DecidableEq

namespace Ledger

variable {κ : Type}

/-- The resource that an acquisition gives. -/
def fresh (kind : κ) (ledger : Ledger κ) : Resource κ := ⟨kind, ledger.next⟩

def acquire (kind : κ) (ledger : Ledger κ) : Ledger κ where
  next := ledger.next + 1
  log := ledger.log ++ [.acquired (ledger.fresh kind)]

def release (resource : Resource κ) (ledger : Ledger κ) : Ledger κ :=
  { ledger with log := ledger.log ++ [.released resource] }

/-- Releasing a handle that may be null. -/
def releaseHandle (handle : Option (Resource κ)) (ledger : Ledger κ) : Ledger κ :=
  handle.elim ledger ledger.release

/-- An acquisition that may fail, which leaves a null handle. -/
def request (kind : κ) (granted : Bool) (ledger : Ledger κ) : Option (Resource κ) × Ledger κ :=
  if granted then (some (ledger.fresh kind), ledger.acquire kind) else (none, ledger)

theorem releaseHandle_log (handle : Option (Resource κ)) (ledger : Ledger κ) :
    (ledger.releaseHandle handle).log = ledger.log ++ handle.toList.map .released := by
  cases handle with
  | none => exact (List.append_nil _).symm
  | some resource => rfl

variable [DecidableEq κ]

/-- What was acquired since was released exactly once, and nothing else was released. -/
def Settled (before after : Ledger κ) : Prop :=
  ∃ entries, after.log = before.log ++ entries ∧ ∀ resource,
    entries.count (.acquired resource) ≤ 1 ∧
      entries.count (.released resource) = entries.count (.acquired resource)

/-- The counts of some entries; the resources held are those still to be released. -/
structure Tally (first last : Nat) (held : List (Resource κ)) (entries : List (Entry κ)) : Prop where
  ordered : first ≤ last
  balanced : ∀ resource, entries.count (.released resource) + held.count resource =
    entries.count (.acquired resource)
  once : ∀ resource, entries.count (.acquired resource) ≤ 1
  numbered : ∀ resource, .acquired resource ∈ entries → first ≤ resource.number ∧ resource.number < last

/-- Exactly some of the resources acquired since are held, the others were released once. -/
def Holds (before : Ledger κ) (held : List (Resource κ)) (after : Ledger κ) : Prop :=
  ∃ entries, after.log = before.log ++ entries ∧ Tally before.next after.next held entries

variable {before middle after : Ledger κ} {held others : List (Resource κ)} {resource : Resource κ}

theorem Holds.refl (ledger : Ledger κ) : Holds ledger [] ledger :=
  ⟨[], (List.append_nil _).symm, le_rfl, fun _ => rfl, fun _ => Nat.zero_le 1, fun _ mem => absurd mem List.not_mem_nil⟩

theorem Holds.trans (first : Holds before held middle) (second : Holds middle others after) :
    Holds before (held ++ others) after := by
  obtain ⟨entries, log, tally⟩ := first
  obtain ⟨later, log', tally'⟩ := second
  refine ⟨entries ++ later, by rw [log', log, List.append_assoc], tally.ordered.trans tally'.ordered, ?_, ?_, ?_⟩
  · intro resource
    have := tally.balanced resource
    have := tally'.balanced resource
    simp only [List.count_append]
    omega
  · -- the numbers of the two parts differ
    intro resource
    have once := tally.once resource
    have once' := tally'.once resource
    rw [List.count_append]
    by_cases early : .acquired resource ∈ entries
    · have late : .acquired resource ∉ later := fun late =>
        absurd (tally.numbered resource early).2 (not_lt.mpr (tally'.numbered resource late).1)
      rw [List.count_eq_zero.mpr late]
      omega
    · rw [List.count_eq_zero.mpr early]
      omega
  · intro resource mem
    rcases List.mem_append.mp mem with early | late
    · exact ⟨(tally.numbered resource early).1, (tally.numbered resource early).2.trans_le tally'.ordered⟩
    · exact ⟨tally.ordered.trans (tally'.numbered resource late).1, (tally'.numbered resource late).2⟩

theorem Holds.perm (holds : Holds before held after) (same : held.Perm others) : Holds before others after := by
  obtain ⟨entries, log, tally⟩ := holds
  exact ⟨entries, log, tally.ordered, fun resource => same.count_eq resource ▸ tally.balanced resource, tally.once,
    tally.numbered⟩

theorem Holds.single (kind : κ) (ledger : Ledger κ) : Holds ledger [ledger.fresh kind] (ledger.acquire kind) := by
  refine ⟨_, rfl, Nat.le_succ _, fun resource => ?_, fun resource => ?_, fun resource mem => ?_⟩
  · simp [List.count_cons]
  · simp only [List.count_cons, List.count_nil]
    split <;> omega
  · obtain rfl : resource = ledger.fresh kind := by simpa using mem
    exact ⟨le_rfl, Nat.lt_succ_self _⟩

theorem Holds.acquire (holds : Holds before held after) (kind : κ) :
    Holds before (after.fresh kind :: held) (after.acquire kind) :=
  (holds.trans (.single kind after)).perm (List.perm_append_singleton _ _)

theorem Holds.release (holds : Holds before (resource :: held) after) : Holds before held (after.release resource) := by
  obtain ⟨entries, log, tally⟩ := holds
  refine ⟨entries ++ [.released resource], by rw [Ledger.release, log, List.append_assoc], tally.ordered, ?_, ?_, ?_⟩
  · intro other
    have balanced := tally.balanced other
    simp only [List.count_append, List.count_cons, List.count_nil, beq_iff_eq, Entry.released.injEq] at balanced ⊢
    simp only [reduceCtorEq, if_false]
    omega
  · intro other
    simpa [List.count_append] using tally.once other
  · intro other mem
    exact tally.numbered other (by simpa using mem)

theorem Holds.request (holds : Holds before held after) (kind : κ) (granted : Bool) :
    Holds before ((after.request kind granted).1.toList ++ held) (after.request kind granted).2 := by
  cases granted with
  | false => exact holds
  | true => exact holds.acquire kind

theorem Holds.releaseHandle {handle : Option (Resource κ)} (holds : Holds before (handle.toList ++ held) after) :
    Holds before held (after.releaseHandle handle) := by
  cases handle with
  | none => exact holds
  | some resource => exact holds.release

/-- No resource is held twice. -/
theorem Holds.nodup (holds : Holds before held after) : held.Nodup := by
  obtain ⟨entries, log, tally⟩ := holds
  refine List.nodup_iff_count_le_one.mpr fun resource => ?_
  have balanced := tally.balanced resource
  have once := tally.once resource
  omega

theorem Holds.settled_iff (holds : Holds before held after) : Settled before after ↔ held = [] := by
  obtain ⟨entries, log, tally⟩ := holds
  constructor
  · rintro ⟨others, log', settled⟩
    obtain rfl : others = entries := List.append_cancel_left (log'.symm.trans log)
    refine List.eq_nil_iff_forall_not_mem.mpr fun resource mem => ?_
    have balanced := tally.balanced resource
    have counted := List.count_pos_iff.mpr mem
    have same := (settled resource).2
    omega
  · rintro rfl
    exact ⟨entries, log, fun resource => ⟨tally.once resource, tally.balanced resource⟩⟩

end Ledger
end Yolov5Rknn
